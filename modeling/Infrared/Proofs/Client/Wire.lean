import Infrared.Proofs.Client.Encoding

namespace Infrared

namespace Answer

theorem wire_eq (c : Config) (answer : Answer) :
    answer.wire c = answer.kind.code :: ((Field.u16 (answer.bodyLength c.pulseWidth)).wire c.swapped ++
      (answer.body c.pulseWidth).flatMap (Field.wire c.swapped)) := by
  rw [wire_eq_flatMap, fields, List.flatMap_cons, List.flatMap_cons, Field.wire_u8, UInt8.ofNat_toNat]
  rfl

end Answer

namespace Client

variable {client : Client} {c : Config}

theorem wire_settings (hswapped : client.swapped = c.swapped)
    (hwidth : client.pulseWidth = c.pulseWidth) (content : Request.Content) :
    content.wire client.settings = content.wire c := by
  rw [Request.Content.wire_eq_flatMap, Request.Content.wire_eq_flatMap, settings, hswapped, hwidth]

theorem sendRequest_eq (hswapped : client.swapped = c.swapped)
    (hwidth : client.pulseWidth = c.pulseWidth) (frequency : UInt32) {pulses : List UInt32}
    (hlength : Packet.pulsesHeadLength + pulses.length * c.pulseWidth.bytes ≤ Packet.lengthLimit) :
    client.sendRequest frequency pulses =
      .ok ((Request.Content.send frequency (pulses.map c.pulseWidth.saturate)).wire c) := by
  rw [← hwidth] at hlength
  have hportable : (Request.Content.send frequency pulses).Portable client.pulseWidth := hlength
  have hencode := encode_of_portable hportable
  rwa [wire_settings hswapped hwidth, ← Request.Content.wire_saturated] at hencode

theorem sendRequest_eq_error (hwidth : client.pulseWidth = c.pulseWidth) (frequency : UInt32)
    {pulses : List UInt32}
    (hlength : Packet.lengthLimit < Packet.pulsesHeadLength + pulses.length * c.pulseWidth.bytes) :
    client.sendRequest frequency pulses = .error .payloadTooLarge := by
  rw [← hwidth] at hlength
  have hnot : ¬(Request.Content.send frequency pulses).Portable client.pulseWidth :=
    Nat.not_le.mpr hlength
  exact encode_of_not_portable hnot

/-- Pulses that do not fit a packet are not written. -/
theorem send_eq_error {σ : Type} [Link σ] (hwidth : client.pulseWidth = c.pulseWidth)
    (frequency : UInt32) {pulses : List UInt32}
    (hlength : Packet.lengthLimit < Packet.pulsesHeadLength + pulses.length * c.pulseWidth.bytes)
    (s : σ) : client.send frequency pulses s = (.error .payloadTooLarge, s) := by
  rw [send, sendRequest_eq_error hwidth frequency hlength]
  rfl

theorem receiveRequest_eq (hswapped : client.swapped = c.swapped) :
    client.receiveRequest = .ok (Request.Content.receive.wire c) := by
  have hportable : Request.Content.receive.Portable client.pulseWidth := trivial
  have hencode := encode_of_portable hportable
  rw [Request.Content.wire, settings, hswapped] at hencode
  exact hencode

theorem configRequest_eq (hswapped : client.swapped = c.swapped) {name ssid password : List UInt8}
    (hname : name.length ≤ Packet.stringLimit) (hssid : ssid.length ≤ Packet.stringLimit)
    (hpassword : password.length ≤ Packet.stringLimit) :
    client.configRequest name ssid password =
      .ok ((Request.Content.config name ssid password).wire c) := by
  have hportable : (Request.Content.config name ssid password).Portable client.pulseWidth :=
    ⟨hname, hssid, hpassword⟩
  have hencode := encode_of_portable hportable
  rw [Request.Content.wire, settings, hswapped] at hencode
  exact hencode

theorem configRequest_eq_error {name ssid password : List UInt8}
    (hlong : Packet.stringLimit < name.length ∨ Packet.stringLimit < ssid.length ∨
      Packet.stringLimit < password.length) :
    client.configRequest name ssid password = .error .payloadTooLarge := by
  have hnot : ¬(Request.Content.config name ssid password).Portable client.pulseWidth := by
    rintro ⟨hname, hssid, hpassword⟩
    omega
  exact encode_of_not_portable hnot

/-- Strings that a packet cannot hold are not written. -/
theorem configure_eq_error {σ : Type} [Link σ] {name ssid password : List UInt8}
    (hlong : Packet.stringLimit < name.length ∨ Packet.stringLimit < ssid.length ∨
      Packet.stringLimit < password.length) (s : σ) :
    client.configure name ssid password s = (.error .payloadTooLarge, s) := by
  rw [configure, configRequest_eq_error hlong]
  rfl

/-- The bytes in front of the body of a packet. -/
def head (client : Client) (kind : Packet.Kind) (length : Nat) : List UInt8 :=
  kind.code :: Layout.number client.swapped 2 length

@[simp] theorem length_head (client : Client) (kind : Packet.Kind) (length : Nat) :
    (client.head kind length).length = Packet.headLength := by
  rw [head, List.length_cons, Layout.length_number, Packet.headLength]

theorem head_wordValue (client : Client) (kind : Packet.Kind) (low high : UInt8) :
    client.head kind (client.wordValue [low, high]) = [kind.code, low, high] := by
  rw [head, ← Layout.wire_word]
  exact congrArg (kind.code :: ·) (client.wire_word_wordValue [low, high])

theorem wordValue_drop_head {length : Nat} (h : length ≤ Packet.lengthLimit) :
    client.wordValue ((client.head kind length).drop 1) = length := by
  have hbound := Word.bound_two
  simp only [Packet.lengthLimit] at h
  rw [head, List.drop_succ_cons, List.drop_zero, ← Layout.wire_word]
  exact wordValue_wire_word (by omega)

theorem receiveRequest_eq_head (client : Client) :
    client.receiveRequest = .ok (client.head .receiveRequest 0) := by
  rw [receiveRequest_eq (c := client.settings) rfl]
  rfl

theorem readReply_of_head {σ : Type} [Link σ] {s t : σ} {kind : Packet.Kind} {length : Nat}
    (hlength : length ≤ Packet.lengthLimit)
    (hread : Link.readBlock Packet.headLength s = (.ok (client.head kind length), t)) :
    client.readReply kind s = Link.readBlock length t := by
  have htake : (client.head kind length).take 1 = [kind.code] := rfl
  rw [readReply, hread]
  dsimp only
  rw [if_pos htake, wordValue_drop_head hlength]

theorem readReply_of_take_ne {σ : Type} [Link σ] {s t : σ} {kind : Packet.Kind}
    {front : List UInt8} (hread : Link.readBlock Packet.headLength s = (.ok front, t))
    (hfront : front.take 1 ≠ [kind.code]) :
    client.readReply kind s = (.error .unexpectedResponse, t) := by
  rw [readReply, hread]
  dsimp only
  rw [if_neg hfront]

theorem signalOf_eq (hswapped : client.swapped = c.swapped)
    (hwidth : client.pulseWidth = c.pulseWidth) {pulses : List UInt32}
    (hpulses : ∀ pulse ∈ pulses, pulse ≤ c.pulseWidth.longest) (hlength : pulses.length < 65536) :
    client.signalOf (((Answer.captured pulses).body c.pulseWidth).flatMap (Field.wire c.swapped)) =
      .ok ⟨0, pulses⟩ := by
  rw [← hwidth] at hpulses
  have hfits : Signal.Fits client ⟨0, pulses⟩ := ⟨Nat.le_of_lt_succ hlength, hpulses⟩
  have hread := signalOf_wire hfits
  rw [Signal.wire_eq, UInt32.toNat_zero] at hread
  rw [← hswapped, ← hwidth]
  exact hread

end Client

end Infrared
