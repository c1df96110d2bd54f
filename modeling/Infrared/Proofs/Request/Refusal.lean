import Infrared.Proofs.Device.Reception

namespace Infrared.Request

variable {c : Config} {content : Content}

theorem Content.overdue_wire (hlt : content.bodyLength c.pulseWidth < 65536) :
    Overdue c (content.wire c) := by
  rw [wire_eq, Overdue, Field.u16, Layout.wire_word]
  exact .inr ⟨_, _, Nat.le_of_lt_succ hlt, rfl, Nat.le_of_eq (length_body c content).symm⟩

theorem Content.verdict_wire_eq_refused (hvalid : c.Valid)
    (hlt : content.bodyLength c.pulseWidth < 65536)
    (hnone : ∀ other : Content, other.Admissible c → other.kind.code = content.kind.code →
      other.bodyLength c.pulseWidth = content.bodyLength c.pulseWidth →
        other.wire c ≠ content.wire c) :
    verdict c (content.wire c) = .refused := by
  cases hverdict : verdict c (content.wire c) with
  | waiting => exact absurd (overdue_wire hlt) (not_overdue_of_waiting hverdict)
  | accepted request kept =>
      obtain ⟨other, hother, hbegin, -, -⟩ := exists_of_verdict_eq_accepted hverdict
      obtain ⟨hkind, hlength⟩ := bodyLength_eq_of_isPrefix (bodyLength_lt hvalid hother) hlt hbegin
      refine absurd (hbegin.eq_of_length ?_) (hnone other hother hkind hlength)
      rw [length_wire, length_wire, hlength]
  | refused => rfl

/-- Too many pulses are refused. -/
theorem verdict_send_eq_refused (hvalid : c.Valid) {frequency : UInt32} {pulses : List UInt32}
    (hlt : (Content.send frequency pulses).bodyLength c.pulseWidth < 65536)
    (hmany : c.pulsesMax.toNat < pulses.length) :
    verdict c ((Content.send frequency pulses).wire c) = .refused := by
  apply Content.verdict_wire_eq_refused hvalid hlt
  intro other hother hkind hlength
  cases other with
  | send frequency' pulses' =>
      simp only [Content.bodyLength, Nat.add_left_cancel_iff] at hlength
      have hcount := Nat.eq_of_mul_eq_mul_right c.pulseWidth.bytes_pos hlength
      have hfew := hother.1
      omega
  | receive => simp [Content.kind, Packet.Kind.code] at hkind
  | config name ssid password => simp [Content.kind, Packet.Kind.code] at hkind

/-- A name that is too long is refused, and so are strings that are too long together. -/
theorem verdict_config_eq_refused (hvalid : c.Valid) {name ssid password : List UInt8}
    (hname : name.length ≤ Packet.stringLimit) (hssid : ssid.length ≤ Packet.stringLimit)
    (hpassword : password.length ≤ Packet.stringLimit)
    (hlong : c.nameLengthMax < name.length ∨
      c.scratchLength < name.length + ssid.length + password.length) :
    verdict c ((Content.config name ssid password).wire c) = .refused := by
  have hlimit := hvalid.nameLengthMax_le
  simp only [Packet.stringLimit] at hname hssid hpassword hlimit
  apply Content.verdict_wire_eq_refused hvalid
  · simp only [Content.bodyLength]
    omega
  intro other hother hkind hlength hwire
  cases other with
  | send frequency' pulses' => simp [Content.kind, Packet.Kind.code] at hkind
  | receive => simp [Content.kind, Packet.Kind.code] at hkind
  | config name' ssid' password' =>
      obtain ⟨hname', -, -, hroom⟩ := hother
      simp only [Content.bodyLength] at hlength
      -- The byte in front of the name is its length.
      have hfirst : UInt8.ofNat name'.length = UInt8.ofNat name.length := by
        rw [Content.wire_eq, Content.wire_eq] at hwire
        simp only [Content.bodyLength, hlength, List.cons.injEq, List.append_cancel_left_eq,
          Content.body, List.flatMap_cons, Content.textFields, Field.wire_u8,
          List.cons_append, List.nil_append] at hwire
        exact hwire.2.1
      have hbyte := congrArg UInt8.toNat hfirst
      rw [UInt8.toNat_ofNat', UInt8.toNat_ofNat', Nat.mod_eq_of_lt (by omega),
        Nat.mod_eq_of_lt (by omega)] at hbyte
      omega

end Infrared.Request
