import Infrared.Proofs.Field.Machine
import Infrared.Proofs.Identity
import Infrared.Proofs.Machine.Station

namespace Infrared

open Access (AllInRange)

/-- Writes fields, as long as each of them is complete. -/
def CheckedStream.writeAll (c : CheckedStream) : List Field → Option (Except Fault Bool × CheckedStream)
  | [] => some (.ok true, c)
  | f :: fields => do
    let (result, c) ← c.write f
    match result with
    | .ok true => c.writeAll fields
    | result => some (result, c)

structure CheckedBeacon where
  port : UInt16
  interval : UInt32
  payload : CheckedStream
  running : Bool
  deriving DecidableEq, Repr

namespace CheckedBeacon

def new (port : UInt16) (interval : UInt32) (nameLengthMax : Nat) (swapped : Bool) : CheckedBeacon :=
  ⟨port, interval, .new .writer (Packet.beaconHeadLength + nameLengthMax) swapped, false⟩

def encode (payload : CheckedStream) (servicePort : UInt16) (name : List UInt8) :
    Option (Except Fault Unit × CheckedStream) :=
  if Packet.stringLimit < name.length then some (.error .payloadTooLarge, payload)
  else if payload.cells.bytes.length < Packet.beaconHeadLength + name.length then
    some (.error .payloadTooLarge, payload)
  else do
    let (result, payload) ← payload.writeAll [.u16 servicePort.toNat, .u8 name.length, .raw name]
    match result with
    | .ok true => some (.ok (), payload)
    | .ok false => some (.error .bufferTooSmall, payload)
    | .error fault => some (.error fault, payload)

def pack (b : CheckedBeacon) (servicePort : UInt16) (name : List UInt8) :
    Option (Except Fault Unit × CheckedBeacon) := do
  let (result, payload) ← encode b.payload.reset servicePort name
  match result with
  | .ok _ => some (.ok (), { b with payload := payload })
  | .error fault => some (.error fault, { b with payload := payload.reset })

variable {ω : Type} [Platform ω]

def start (b : CheckedBeacon) (world : ω) : CheckedBeacon × ω :=
  ({ b with running := true }, Platform.tell (.arm b.interval) world)

def stop (b : CheckedBeacon) (world : ω) : CheckedBeacon × ω :=
  ({ b with running := false }, Platform.tell .disarm world)

def tick (b : CheckedBeacon) (world : ω) : Option ω :=
  if b.running then do
    let data ← b.payload.cells.filled
    let world := if data.isEmpty then world else Platform.tell (.broadcast b.port data) world
    some (Platform.tell (.arm b.interval) world)
  else some world

end CheckedBeacon

/-- All of a device that outlives a conversation, as the machine has it. -/
structure CheckedBoard (ω : Type) where
  world : ω
  station : CheckedStation
  name : Cells
  beacon : CheckedBeacon
  listener : Bool
  servicePort : UInt16
  sendPin : UInt8
  receivePin : UInt8

namespace CheckedBoard

variable {ω : Type}

def new (config : Config) (world : ω) : CheckedBoard ω where
  world := world
  station := .new config.pulseWidth config.signalTimeout config.pulseTimeout
  name := ⟨List.replicate config.nameLengthMax 0, 0, 0⟩
  beacon := .new config.beaconPort config.beaconInterval config.nameLengthMax config.swapped
  listener := false
  servicePort := config.port
  sendPin := config.sendPin
  receivePin := config.receivePin

def packBeacon (b : CheckedBoard ω) : Option (Except Fault Unit × CheckedBoard ω) := do
  let name ← b.name.filled
  let (result, beacon) ← b.beacon.pack b.servicePort name
  some (result, { b with beacon := beacon })

/-- Takes a new name into the slot and changes the beacon with it, whether or not the name fits. -/
def rename (b : CheckedBoard ω) (name : List UInt8) : Option (CheckedBoard ω) := do
  let (_, slot) ← b.name.reset.extend name
  let (_, b) ← packBeacon { b with name := slot }
  some b

def setName (b : CheckedBoard ω) (name : List UInt8) : Option (Except Fault Unit × CheckedBoard ω) :=
  if b.name.bytes.length < name.length then some (.error .payloadTooLarge, b)
  else do
    let (result, slot) ← b.name.reset.extend name
    match result with
    | .ok _ => packBeacon { b with name := slot }
    | .error fault => some (.error fault, { b with name := slot })

def generateName (b : CheckedBoard ω) (chip : UInt32) : Option (Except Fault Unit × CheckedBoard ω) := do
  let (result, slot) ← b.name.reset.extend (Name.ofChip chip)
  match result with
  | .ok _ => packBeacon { b with name := slot }
  | .error _ => some (.error .bufferTooSmall, { b with name := slot.reset })

variable [Platform ω]

def tell (b : CheckedBoard ω) (call : Call) : CheckedBoard ω :=
  { b with world := Platform.tell call b.world }

def transmit (b : CheckedBoard ω) (frequency : UInt32) (pulses : List UInt8) : Option (CheckedBoard ω) := do
  let (_, station, world) ← b.station.transmit b.sendPin frequency pulses b.world
  some { b with station := station, world := world }

def armCapture (b : CheckedBoard ω) : CheckedBoard ω :=
  match b.station.armCapture b.receivePin b.world with
  | (station, world) => { b with station := station, world := world }

def resetStation (b : CheckedBoard ω) : CheckedBoard ω :=
  match b.station.reset b.world with
  | (station, world) => { b with station := station, world := world }

def capture (b : CheckedBoard ω) (store : Cells) :
    Option (Option Station.Report × CheckedBoard ω × Cells) := do
  let (report, station, store, world) ← b.station.capture store b.world
  some (report, { b with station := station, world := world }, store)

end CheckedBoard

/-- Whether the machine has a beacon, whose payload is a stream for writing. -/
structure CheckedBeacon.Shows (c : CheckedBeacon) (b : Beacon) : Prop where
  port_eq : c.port = b.port
  interval_eq : c.interval = b.interval
  running_eq : c.running = b.running
  payload : c.payload.Shows b.payload
  side_eq : b.payload.side = .writer

structure CheckedBoard.Shows {ω : Type} (c : CheckedBoard ω) (b : Board ω) : Prop where
  world_eq : c.world = b.world
  station_eq : c.station.plain = b.station
  name_eq : c.name = b.name.cells
  beacon : c.beacon.Shows b.beacon
  listener_eq : c.listener = b.listener
  servicePort_eq : c.servicePort = b.servicePort
  sendPin_eq : c.sendPin = b.sendPin
  receivePin_eq : c.receivePin = b.receivePin

theorem CheckedStream.Shows.writeAll {c : CheckedStream} {s t : FieldStream} {fields : List Field}
    (h : c.Shows s) (hput : s.putAll fields = .ok t) :
    ∃ c', c.writeAll fields = some (.ok true, c') ∧ c'.Shows t ∧ t.side = s.side := by
  induction fields generalizing c s with
  | nil =>
      simp only [FieldStream.putAll, Except.ok.injEq] at hput
      exact ⟨c, rfl, hput ▸ h, hput ▸ rfl⟩
  | cons f fields ih =>
      obtain ⟨c', hwrite, hc'⟩ := h.write f
      rw [FieldStream.putAll, FieldStream.put] at hput
      cases hmoved : s.write f with
      | mk result u =>
          rw [hmoved] at hput hwrite hc'
          rw [CheckedStream.writeAll, hwrite, Option.bind_eq_bind, Option.bind_some]
          cases result with
          | error fault => simp at hput
          | ok complete =>
              cases complete with
              | false => simp at hput
              | true =>
                  obtain ⟨c'', hall, hc'', hside⟩ := ih hc' hput
                  exact ⟨c'', hall, hc'', hside.trans (FieldStream.position_of_write hmoved).2⟩

namespace CheckedBeacon

variable {c : CheckedBeacon} {b : Beacon}

theorem Shows.pack (h : c.Shows b) (servicePort : UInt16) (name : List UInt8) :
    ∃ c', c.pack servicePort name = some ((b.pack servicePort name).1, c') ∧
      c'.Shows (b.pack servicePort name).2 := by
  obtain ⟨port, interval, payload, running⟩ := b
  obtain ⟨hport, hinterval, hrunning, hpayload, hside⟩ := h
  dsimp only at hport hinterval hrunning hpayload hside
  have hcells : c.payload.reset.cells.bytes.length = payload.reset.capacity := by
    rw [hpayload.reset.cells_eq, Buffer.bytes_cells, Buffer.length_storage]
    rfl
  have hblank : payload.reset.reset = payload.reset := rfl
  cases hfits : Beacon.fits name payload.reset.capacity with
  | false =>
      have hlong : c.pack servicePort name =
          some (.error .payloadTooLarge, { c with payload := c.payload.reset.reset }) := by
        rw [Beacon.fits, Bool.and_eq_false_iff, decide_eq_false_iff_not, decide_eq_false_iff_not] at hfits
        rw [CheckedBeacon.pack, encode, hcells]
        by_cases hname : Packet.stringLimit < name.length
        · rw [if_pos hname]
          rfl
        · rw [if_neg hname, if_pos (by omega)]
          rfl
      rw [hlong, Beacon.pack, hfits]
      refine ⟨_, rfl, hport, hinterval, hrunning, ?_, hside⟩
      exact hblank ▸ hpayload.reset.reset
  | true =>
      obtain ⟨full, hpack, -⟩ := Beacon.exists_pack_of_fits (b := ⟨port, interval, payload, running⟩)
        hside hfits servicePort
      simp only [Beacon.pack, hfits, if_true] at hpack ⊢
      split at hpack
      · rename_i filled hput
        obtain ⟨c', hwrite, hc', hkept⟩ := hpayload.reset.writeAll hput
        have hwritten : c.pack servicePort name = some (.ok (), { c with payload := c' }) := by
          rw [Beacon.fits, Bool.and_eq_true, decide_eq_true_eq, decide_eq_true_eq] at hfits
          rw [CheckedBeacon.pack, encode, hcells, if_neg (by omega), if_neg (by omega)]
          rw [Beacon.fields] at hwrite
          simp only [hwrite, Option.bind_eq_bind, Option.bind_some]
        rw [hwritten]
        exact ⟨_, rfl, hport, hinterval, hrunning, hc', hkept.trans hside⟩
      · simp at hpack

variable {ω : Type} [Platform ω]

theorem Shows.start (h : c.Shows b) (world : ω) :
    (c.start world).1.Shows (b.start world).1 ∧ (c.start world).2 = (b.start world).2 := by
  refine ⟨⟨h.port_eq, h.interval_eq, rfl, h.payload, h.side_eq⟩, ?_⟩
  rw [CheckedBeacon.start, h.interval_eq]
  rfl

theorem Shows.stop (h : c.Shows b) (world : ω) :
    (c.stop world).1.Shows (b.stop world).1 ∧ (c.stop world).2 = (b.stop world).2 :=
  ⟨⟨h.port_eq, h.interval_eq, rfl, h.payload, h.side_eq⟩, rfl⟩

theorem Shows.tick (h : c.Shows b) (world : ω) : c.tick world = some (b.tick world) := by
  rw [CheckedBeacon.tick, Beacon.tick, Beacon.tickCalls, h.running_eq, h.payload.filled_eq, h.port_eq,
    h.interval_eq]
  cases b.running with
  | false => rfl
  | true =>
      simp only [if_true, Option.bind_eq_bind, Option.bind_some]
      by_cases hempty : b.payload.data.isEmpty = true
      · rw [if_pos hempty, if_pos hempty]
        rfl
      · rw [if_neg hempty, if_neg hempty]
        rfl

end CheckedBeacon

namespace CheckedBoard

variable {ω : Type} {c : CheckedBoard ω} {b : Board ω}

theorem Shows.with_name (h : c.Shows b) (slot : Buffer) :
    CheckedBoard.Shows { c with name := slot.cells } { b with name := slot } :=
  ⟨h.world_eq, h.station_eq, rfl, h.beacon, h.listener_eq, h.servicePort_eq, h.sendPin_eq, h.receivePin_eq⟩

theorem Shows.with_world (h : c.Shows b) (world : ω) :
    CheckedBoard.Shows { c with world := world } { b with world := world } :=
  ⟨rfl, h.station_eq, h.name_eq, h.beacon, h.listener_eq, h.servicePort_eq, h.sendPin_eq, h.receivePin_eq⟩

theorem Shows.with_beacon (h : c.Shows b) {told : CheckedBeacon × ω} {beacon : Beacon × ω}
    (hbeacon : told.1.Shows beacon.1 ∧ told.2 = beacon.2) :
    CheckedBoard.Shows { c with beacon := told.1, world := told.2 }
      { b with beacon := beacon.1, world := beacon.2 } :=
  ⟨hbeacon.2, h.station_eq, h.name_eq, hbeacon.1, h.listener_eq, h.servicePort_eq, h.sendPin_eq,
    h.receivePin_eq⟩

theorem Shows.packBeacon (h : c.Shows b) :
    ∃ c', c.packBeacon = some (b.packBeacon.1, c') ∧ c'.Shows b.packBeacon.2 := by
  obtain ⟨beacon, hpack, hbeacon⟩ := h.beacon.pack b.servicePort b.name.filled
  refine ⟨{ c with beacon := beacon }, ?_, h.world_eq, h.station_eq, h.name_eq, hbeacon, h.listener_eq,
    h.servicePort_eq, h.sendPin_eq, h.receivePin_eq⟩
  rw [CheckedBoard.packBeacon, h.name_eq, Buffer.filled_cells, h.servicePort_eq]
  simp only [hpack, Option.bind_eq_bind, Option.bind_some]
  rfl

theorem Shows.rename (h : c.Shows b) (name : List UInt8) :
    ∃ c', c.rename name = some c' ∧ c'.Shows (b.rename name).2 := by
  obtain ⟨c', hpack, hc'⟩ := (h.with_name (b.name.reset.extend name).2).packBeacon
  refine ⟨c', ?_, hc'⟩
  simp only [CheckedBoard.rename, h.name_eq, Buffer.reset_cells, Buffer.extend_cells, hpack,
    Option.bind_eq_bind, Option.bind_some]

theorem Shows.setName (h : c.Shows b) (name : List UInt8) :
    ∃ c', c.setName name = some ((b.setName name).1, c') ∧ c'.Shows (b.setName name).2 := by
  rw [CheckedBoard.setName, Board.setName, h.name_eq, Buffer.bytes_cells, Buffer.length_storage]
  by_cases hlong : b.name.capacity < name.length
  · rw [if_pos hlong, if_pos hlong]
    exact ⟨c, rfl, h⟩
  · obtain ⟨c', hpack, hc'⟩ := (h.with_name (b.name.reset.extend name).2).packBeacon
    have hfits : (b.name.reset.extend name).1 = .ok () := by
      rw [Buffer.extend_of_le _ (by rw [Buffer.left_reset]; exact Nat.le_of_not_lt hlong)]
    rw [if_neg hlong, if_neg hlong]
    refine ⟨c', ?_, hc'⟩
    simp only [Buffer.reset_cells, Buffer.extend_cells, hfits, hpack, Option.bind_eq_bind, Option.bind_some]
    rfl

theorem Shows.generateName (h : c.Shows b) (chip : UInt32) :
    ∃ c', c.generateName chip = some ((b.generateName chip).1, c') ∧ c'.Shows (b.generateName chip).2 := by
  rw [CheckedBoard.generateName, Board.generateName, Name.generate, h.name_eq, Buffer.reset_cells,
    Buffer.extend_cells, Option.bind_eq_bind, Option.bind_some]
  rcases Nat.lt_or_ge b.name.reset.left (Name.ofChip chip).length with hlt | hle
  · rw [Buffer.extend_of_lt _ hlt]
    exact ⟨_, rfl, h.with_name b.name.reset⟩
  · obtain ⟨c', hpack, hc'⟩ := (h.with_name (b.name.reset.append (Name.ofChip chip))).packBeacon
    rw [Buffer.extend_of_le _ hle]
    exact ⟨c', hpack, hc'⟩

theorem shows_new (config : Config) (world : ω) :
    (CheckedBoard.new config world).Shows (Board.new config world) :=
  ⟨rfl, rfl, rfl, ⟨rfl, rfl, rfl, .new _ _ _, rfl⟩, rfl, rfl, rfl, rfl⟩

variable [Platform ω]

theorem Shows.tell (h : c.Shows b) (call : Call) : (c.tell call).Shows (b.tell call) :=
  ⟨congrArg (Platform.tell call) h.world_eq, h.station_eq, h.name_eq, h.beacon, h.listener_eq,
    h.servicePort_eq, h.sendPin_eq, h.receivePin_eq⟩

theorem Shows.transmit (h : c.Shows b) (frequency : UInt32) (pulses : List UInt8) :
    ∃ c', c.transmit frequency pulses = some c' ∧ c'.Shows (b.transmit frequency pulses) := by
  obtain ⟨station, htransmit, hstation⟩ := c.station.transmit_eq b.sendPin frequency pulses b.world
  rw [h.station_eq] at htransmit hstation
  refine ⟨{ c with station := station, world := _ }, ?_, rfl, hstation, h.name_eq, h.beacon, h.listener_eq,
    h.servicePort_eq, h.sendPin_eq, h.receivePin_eq⟩
  rw [CheckedBoard.transmit, h.sendPin_eq, h.world_eq, htransmit]
  rfl

theorem Shows.armCapture (h : c.Shows b) : c.armCapture.Shows b.armCapture := by
  have harm := c.station.armCapture_eq b.receivePin b.world
  rw [h.station_eq] at harm
  simp only [CheckedBoard.armCapture, h.receivePin_eq, h.world_eq, Board.armCapture, ← harm]
  exact ⟨rfl, rfl, h.name_eq, h.beacon, h.listener_eq, h.servicePort_eq, h.sendPin_eq, rfl⟩

theorem Shows.resetStation (h : c.Shows b) : c.resetStation.Shows b.resetStation := by
  have hreset := c.station.reset_eq b.world
  rw [h.station_eq] at hreset
  simp only [CheckedBoard.resetStation, h.world_eq, Board.resetStation, ← hreset]
  exact ⟨rfl, rfl, h.name_eq, h.beacon, h.listener_eq, h.servicePort_eq, h.sendPin_eq, h.receivePin_eq⟩

theorem Shows.capture (h : c.Shows b) (store : Buffer)
    (hin : AllInRange (b.station.captureAccesses store b.world)) :
    ∃ c', c.capture store.cells = some ((b.capture store).1, c', (b.capture store).2.2.cells) ∧
      c'.Shows (b.capture store).2.1 := by
  rw [← h.station_eq] at hin
  obtain ⟨station, hcapture, hstation⟩ := c.station.exists_capture_eq store hin
  rw [h.station_eq] at hcapture hstation
  refine ⟨{ c with station := station, world := _ }, ?_, rfl, hstation, h.name_eq, h.beacon, h.listener_eq,
    h.servicePort_eq, h.sendPin_eq, h.receivePin_eq⟩
  rw [CheckedBoard.capture, h.world_eq, hcapture]
  rfl

end CheckedBoard

end Infrared
