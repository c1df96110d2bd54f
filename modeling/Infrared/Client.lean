import Infrared.Field.Stream
import Infrared.Link
import Infrared.Packet

/-!
The client's side of a conversation: it sends one request and reads the reply. Word order and pulse width have
to be those of the device.
-/

namespace Infrared

structure Client where
  /-- Whether words are sent most significant byte first. -/
  swapped : Bool := true
  pulseWidth : PulseWidth := default
  deriving DecidableEq, Repr, Inhabited

/-- A signal that the device recorded. -/
structure Client.Signal where
  carrierFrequency : UInt32
  pulses : List UInt32
  deriving DecidableEq, Repr

namespace Client

/-- The bytes of a request whose body has the given length. -/
def request (c : Client) (kind : Packet.Kind) (length : Nat) (body : List Field) :
    Except Fault (List UInt8) :=
  match (FieldStream.writer (Packet.headLength + length) c.swapped).putAll
      (.u8 kind.code.toNat :: .u16 length :: body) with
  | .ok out => .ok out.data
  | .error fault => .error fault

def pulseField (c : Client) (pulse : UInt32) : Field :=
  ⟨.fixed, c.pulseWidth.encode pulse⟩

def sendRequest (c : Client) (frequency : UInt32) (pulses : List UInt32) :
    Except Fault (List UInt8) :=
  match Packet.pulsesBodyLength pulses.length c.pulseWidth with
  | .ok length =>
    c.request .sendRequest length
      (.u32 frequency.toNat :: .u16 pulses.length :: pulses.map c.pulseField)
  | .error fault => .error fault

def receiveRequest (c : Client) : Except Fault (List UInt8) :=
  c.request .receiveRequest 0 []

def configRequest (c : Client) (name ssid password : List UInt8) : Except Fault (List UInt8) :=
  match Packet.configBodyLength name ssid password with
  | .ok length =>
    c.request .configRequest length
      ([name, ssid, password].flatMap fun text => [.u8 text.length, .raw text])
  | .error fault => .error fault

/-- The number in a word of a packet. -/
def wordValue (c : Client) (bytes : List UInt8) : Nat :=
  Word.value (Field.orient c.swapped .fixed bytes)

/-- The first `count` pulses of a body, taken over to those it got. -/
def pulsesOf (c : Client) : Nat → List UInt8 → Array UInt32 → Array UInt32
  | 0, _, got => got
  | count + 1, bytes, got =>
    c.pulsesOf count (bytes.drop c.pulseWidth.bytes)
      (got.push (UInt32.ofNat (c.wordValue (bytes.take c.pulseWidth.bytes))))

/-- The signal in the body of a reply, whose length has to be that of its count of pulses. -/
def signalOf (c : Client) (body : List UInt8) : Except Fault Signal :=
  let count := c.wordValue ((body.drop 4).take 2)
  if body.length < Packet.pulsesHeadLength then .error .lengthMismatch
  else if body.length ≠ Packet.pulsesHeadLength + count * c.pulseWidth.bytes then
    .error .lengthMismatch
  else
    .ok ⟨UInt32.ofNat (c.wordValue (body.take 4)),
      (c.pulsesOf count (body.drop Packet.pulsesHeadLength) #[]).toList⟩

def expectEmpty (body : List UInt8) : Except Fault Unit :=
  if body.isEmpty then .ok () else .error .lengthMismatch

variable {σ : Type} [Link σ]

/-- Reads a reply of the given type and returns its body. -/
def readReply (c : Client) (kind : Packet.Kind) (s : σ) : Except Fault (List UInt8) × σ :=
  match Link.readBlock Packet.headLength s with
  | (.ok head, s) =>
    if head.take 1 = [kind.code] then Link.readBlock (c.wordValue (head.drop 1)) s
    else (.error .unexpectedResponse, s)
  | (.error fault, s) => (.error fault, s)

/-- Sends a request, if there is one, and returns the body of its reply. -/
def exchange (c : Client) (request : Except Fault (List UInt8)) (answer : Packet.Kind) (s : σ) :
    Except Fault (List UInt8) × σ :=
  match request with
  | .ok data =>
    match Link.writeAll data s with
    | (.ok _, s) => c.readReply answer s
    | (.error fault, s) => (.error fault, s)
  | .error fault => (.error fault, s)

/-- Has the device send a signal. -/
def send (c : Client) (frequency : UInt32) (pulses : List UInt32) (s : σ) : Except Fault Unit × σ :=
  match c.exchange (c.sendRequest frequency pulses) .sendResponse s with
  | (body, s) => (body.bind expectEmpty, s)

/-- Has the device record a signal. -/
def receive (c : Client) (s : σ) : Except Fault Signal × σ :=
  match c.exchange c.receiveRequest .receiveResponse s with
  | (body, s) => (body.bind c.signalOf, s)

/-- Has the device change its name and its network. -/
def configure (c : Client) (name ssid password : List UInt8) (s : σ) : Except Fault Unit × σ :=
  match c.exchange (c.configRequest name ssid password) .configResponse s with
  | (body, s) => (body.bind expectEmpty, s)

end Client

end Infrared
