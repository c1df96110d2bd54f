import Infrared.Config
import Infrared.Proofs.Layout
import Infrared.Request

namespace Infrared.Request

/-- A request with everything that belongs to it. -/
inductive Content where
  | send (frequency : UInt32) (pulses : List UInt32)
  | receive
  | config (name ssid password : List UInt8)
  deriving DecidableEq, Repr

namespace Content

def kind : Content → Packet.Kind
  | send _ _ => .sendRequest
  | receive => .receiveRequest
  | config _ _ _ => .configRequest

def pulseField (width : PulseWidth) (pulse : UInt32) : Field :=
  ⟨.fixed, width.encode pulse⟩

def textFields (text : List UInt8) : List Field :=
  [.u8 text.length, .raw text]

def body (width : PulseWidth) : Content → List Field
  | send frequency pulses =>
    .u32 frequency.toNat :: .u16 pulses.length :: pulses.map (pulseField width)
  | receive => []
  | config name ssid password => [name, ssid, password].flatMap textFields

def bodyLength (width : PulseWidth) : Content → Nat
  | send _ pulses => Packet.pulsesHeadLength + pulses.length * width.bytes
  | receive => 0
  | config name ssid password => 3 + name.length + ssid.length + password.length

/-- The fields of a request, in the order in which they are sent. -/
def fields (width : PulseWidth) (content : Content) : List Field :=
  .u8 content.kind.code.toNat :: .u16 (content.bodyLength width) :: content.body width

/-- The bytes of a request on a connection: its type, the length of its body, and the body. -/
def wire (c : Config) : Content → List UInt8
  | send frequency pulses =>
    0 :: (Layout.number c.swapped 2 (6 + pulses.length * c.pulseWidth.bytes) ++
      (Layout.number c.swapped 4 frequency.toNat ++ (Layout.number c.swapped 2 pulses.length ++
        pulses.flatMap (Layout.pulse c.swapped c.pulseWidth))))
  | receive => 2 :: Layout.number c.swapped 2 0
  | config name ssid password =>
    4 :: (Layout.number c.swapped 2 (3 + name.length + ssid.length + password.length) ++
      (Layout.text name ++ (Layout.text ssid ++ Layout.text password)))

/-- Whether a device has room for a request and a request for what it says. -/
def Admissible (c : Config) : Content → Prop
  | send _ pulses =>
    pulses.length ≤ c.pulsesMax.toNat ∧ ∀ pulse ∈ pulses, pulse ≤ c.pulseWidth.longest
  | receive => True
  | config name ssid password =>
    name.length ≤ c.nameLengthMax ∧ ssid.length ≤ Packet.stringLimit ∧
      password.length ≤ Packet.stringLimit ∧
      name.length + ssid.length + password.length ≤ c.scratchLength

/-- What is known of a request beside its pulses or strings. -/
def request : Content → Request
  | send frequency _ => .send frequency
  | receive => .receive none
  | config name ssid password =>
    .config ⟨0, name.length⟩ ⟨name.length, ssid.length⟩
      ⟨name.length + ssid.length, password.length⟩

/-- The pulses or strings of a request as the scratch store keeps them, the pulses with the least significant
byte first. -/
def kept (width : PulseWidth) : Content → List UInt8
  | send _ pulses => pulses.flatMap (Layout.pulse false width)
  | receive => []
  | config name ssid password => name ++ (ssid ++ password)

theorem wire_pulses (c : Config) (pulses : List UInt32) :
    (pulses.map (pulseField c.pulseWidth)).flatMap (Field.wire c.swapped) =
      pulses.flatMap (Layout.pulse c.swapped c.pulseWidth) := by
  rw [List.flatMap_map]
  congr 1
  funext pulse
  exact Layout.wire_encode _ _ _

/-- The bytes of a request are those of its fields. -/
theorem wire_eq_flatMap (c : Config) (content : Content) :
    content.wire c = (content.fields c.pulseWidth).flatMap (Field.wire c.swapped) := by
  cases content with
  | send frequency pulses =>
      simp only [fields, body, List.flatMap_cons, wire_pulses, Field.u8, Field.u16, Field.u32, Layout.wire_word,
        Layout.number_one]
      rfl
  | receive =>
      simp only [fields, body, List.flatMap_cons, List.flatMap_nil, List.append_nil, Field.u8, Field.u16,
        Layout.wire_word, Layout.number_one]
      rfl
  | config name ssid password =>
      simp only [fields, body, textFields, List.flatMap_cons, List.flatMap_nil, List.append_nil,
        List.cons_append, List.nil_append, Field.u8, Field.u16, Layout.wire_word, Layout.number_one]
      rfl

theorem kept_send (width : PulseWidth) (frequency : UInt32) (pulses : List UInt32) :
    (send frequency pulses).kept width = pulses.flatMap width.encode := by
  rw [kept]
  congr 1
  funext pulse
  exact (Layout.encode_eq_pulse width pulse).symm

theorem length_wire_pulseField (c : Config) (pulse : UInt32) :
    ((pulseField c.pulseWidth pulse).wire c.swapped).length = c.pulseWidth.bytes := by
  simp [pulseField, Field.wire]

theorem length_wire_pulses (c : Config) (pulses : List UInt32) :
    ((pulses.map (pulseField c.pulseWidth)).flatMap (Field.wire c.swapped)).length =
      pulses.length * c.pulseWidth.bytes := by
  induction pulses with
  | nil => simp
  | cons pulse pulses ih =>
      rw [List.map_cons, List.flatMap_cons, List.length_append, ih, length_wire_pulseField,
        List.length_cons, Nat.succ_mul, Nat.add_comm]

theorem length_body (c : Config) (content : Content) :
    ((content.body c.pulseWidth).flatMap (Field.wire c.swapped)).length =
      content.bodyLength c.pulseWidth := by
  cases content with
  | send frequency pulses =>
      simp only [body, List.flatMap_cons, List.length_append, length_wire_pulses, bodyLength,
        Packet.pulsesHeadLength]
      simp only [Field.wire, Field.length_orient, Field.u32, Field.u16, Field.word,
        Word.length_bytes]
      omega
  | receive => rfl
  | config name ssid password =>
      simp only [body, textFields, List.flatMap_cons, List.flatMap_nil, List.append_nil,
        List.flatMap_append, List.length_append, bodyLength]
      simp only [Field.wire, Field.length_orient, Field.u8, Field.word, Field.raw,
        Word.length_bytes]
      omega

end Content

end Infrared.Request
