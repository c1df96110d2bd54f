import Infrared.Beacon
import Infrared.Config
import Infrared.Name
import Infrared.Station

namespace Infrared

structure Board (ω : Type) where
  world : ω
  station : Station
  name : Buffer
  beacon : Beacon
  listener : Bool
  servicePort : UInt16
  sendPin : UInt8
  receivePin : UInt8

namespace Board

variable {ω : Type}

def new (config : Config) (world : ω) : Board ω where
  world := world
  station := Station.new config.pulseWidth config.signalTimeout config.pulseTimeout
  name := Buffer.new config.nameLengthMax
  beacon := Beacon.new config.beaconPort config.beaconInterval config.nameLengthMax config.swapped
  listener := false
  servicePort := config.port
  sendPin := config.sendPin
  receivePin := config.receivePin

/-- Makes the beacon's payload for the name as it is. -/
def packBeacon (b : Board ω) : Except Fault Unit × Board ω :=
  match b.beacon.pack b.servicePort b.name.filled with
  | (result, beacon) => (result, { b with beacon := beacon })

/-- Takes a new name into the slot, which is empty afterwards if the name does not fit. -/
def storeName (b : Board ω) (name : List UInt8) : Board ω :=
  { b with name := (b.name.reset.extend name).2 }

/-- Takes a new name into the slot and changes the beacon with it. -/
def rename (b : Board ω) (name : List UInt8) : Except Fault Unit × Board ω :=
  (b.storeName name).packBeacon

/-- Changes the name and the beacon with it. A name that is too long changes nothing. -/
def setName (b : Board ω) (name : List UInt8) : Except Fault Unit × Board ω :=
  if b.name.capacity < name.length then (.error .payloadTooLarge, b) else b.rename name

/-- Takes the name of a chip and changes the beacon with it. If it does not fit there is no name
afterwards, and the beacon stays. -/
def generateName (b : Board ω) (chip : UInt32) : Except Fault Unit × Board ω :=
  match Name.generate chip b.name with
  | (.ok _, slot) => { b with name := slot }.packBeacon
  | (.error fault, slot) => (.error fault, { b with name := slot })

variable [Platform ω]

/-- Makes a call whose answer is of no interest. -/
def tell (b : Board ω) (call : Call) : Board ω :=
  { b with world := Platform.tell call b.world }

/-- Has the station send pulses on the send pin. -/
def transmit (b : Board ω) (frequency : UInt32) (pulses : List UInt8) : Board ω :=
  match b.station.transmit b.sendPin frequency pulses b.world with
  | (_, station, world) => { b with station := station, world := world }

/-- Has the station wait for a signal on the receive pin. -/
def armCapture (b : Board ω) : Board ω :=
  match b.station.armCapture b.receivePin b.world with
  | (station, world) => { b with station := station, world := world }

def resetStation (b : Board ω) : Board ω :=
  match b.station.reset b.world with
  | (station, world) => { b with station := station, world := world }

/-- Has the station record the signal that arrives. -/
def capture (b : Board ω) (store : Buffer) : Option Station.Report × Board ω × Buffer :=
  match b.station.capture store b.world with
  | (report, station, store, world) => (report, { b with station := station, world := world }, store)

/-- Tells the listener, if there is one, of a configuration under the name that the slot now holds. -/
def announce (b : Board ω) (ssid password : List UInt8) : Board ω :=
  if b.listener then b.tell (.configured b.name.filled ssid password) else b

end Board

end Infrared
