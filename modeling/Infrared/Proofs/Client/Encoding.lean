import Infrared.Proofs.Client.Signal

namespace Infrared

namespace PulseWidth

theorem le_longest_of_mem_map_saturate {w : PulseWidth} {pulse : UInt32} {pulses : List UInt32}
    (h : pulse ∈ pulses.map w.saturate) : pulse ≤ w.longest := by
  obtain ⟨original, -, rfl⟩ := List.mem_map.mp h
  exact w.saturate_le original

theorem encode_saturate (w : PulseWidth) (pulse : UInt32) :
    w.encode (w.saturate pulse) = w.encode pulse := by
  rw [encode, saturate_of_le (w.saturate_le pulse), encode]

theorem bytes_le_limit (w : PulseWidth) : w.bytes ≤ Field.Kind.fixed.limit := by
  cases w <;> decide

end PulseWidth

theorem Field.length_flatMap_wire (swapped : Bool) (fields : List Field) :
    (fields.flatMap (wire swapped)).length = (fields.flatMap fun f => f.bytes).length := by
  simp only [List.length_flatMap, length_wire]

namespace Request.Content

variable {width : PulseWidth} {content other : Content} {c : Config}

/-- Whether a packet can hold a request. -/
def Portable (width : PulseWidth) : Content → Prop
  | send _ pulses => Packet.pulsesHeadLength + pulses.length * width.bytes ≤ Packet.lengthLimit
  | receive => True
  | config name ssid password =>
    name.length ≤ Packet.stringLimit ∧ ssid.length ≤ Packet.stringLimit ∧
      password.length ≤ Packet.stringLimit

/-- What a width leaves of a request: no pulse is longer than the longest one. -/
def saturated (width : PulseWidth) : Content → Content
  | send frequency pulses => send frequency (pulses.map width.saturate)
  | receive => receive
  | config name ssid password => config name ssid password

theorem Portable.bodyLength_le (h : content.Portable width) :
    content.bodyLength width ≤ Packet.lengthLimit := by
  cases content with
  | send frequency pulses => exact h
  | receive => exact Nat.zero_le _
  | config name ssid password =>
      simp only [Portable, Packet.stringLimit] at h
      simp only [bodyLength, Packet.lengthLimit]
      omega

theorem wire_saturated (c : Config) (content : Content) :
    (content.saturated c.pulseWidth).wire c = content.wire c := by
  cases content with
  | send frequency pulses =>
      have hpulses : (pulses.map c.pulseWidth.saturate).map (pulseField c.pulseWidth) =
          pulses.map (pulseField c.pulseWidth) := by
        rw [List.map_map]
        apply List.map_congr_left
        intro pulse _
        simp only [Function.comp_apply, pulseField, PulseWidth.encode_saturate]
      simp only [wire_eq_flatMap, fields, saturated, kind, body, bodyLength, List.length_map, hpulses]
  | receive => rfl
  | config name ssid password => rfl

theorem length_flatMap_fields (width : PulseWidth) (content : Content) :
    ((content.fields width).flatMap fun f => f.bytes).length =
      Packet.headLength + content.bodyLength width := by
  rw [← Field.length_flatMap_wire false]
  have hlength := length_wire (c := { swapped := false, pulseWidth := width }) content
  rw [wire_eq_flatMap] at hlength
  exact hlength

theorem length_le_limit_of_mem_body (h : content.Portable width) {f : Field}
    (hf : f ∈ content.body width) : f.bytes.length ≤ f.kind.limit := by
  cases content with
  | send frequency pulses =>
      rw [body, List.mem_cons, List.mem_cons, List.mem_map] at hf
      rcases hf with rfl | rfl | ⟨pulse, -, rfl⟩
      · simp [Field.u32, Field.word, Field.Kind.limit]
      · simp [Field.u16, Field.word, Field.Kind.limit]
      · rw [pulseField, PulseWidth.length_encode]
        exact width.bytes_le_limit
  | receive => simp [body] at hf
  | config name ssid password =>
      obtain ⟨text, htext, hf⟩ := List.mem_flatMap.mp hf
      have hlimit : text.length ≤ Packet.stringLimit := by
        simp only [List.mem_cons, List.not_mem_nil, or_false] at htext
        rcases htext with rfl | rfl | rfl
        · exact h.1
        · exact h.2.1
        · exact h.2.2
      simp only [textFields, List.mem_cons, List.not_mem_nil, or_false] at hf
      rcases hf with rfl | rfl
      · simp [Field.u8, Field.word, Field.Kind.limit]
      · have hraw : Packet.stringLimit ≤ Field.Kind.raw.limit := by decide
        exact Nat.le_trans hlimit hraw

theorem length_le_limit_of_mem_fields (h : content.Portable width) {f : Field}
    (hf : f ∈ content.fields width) : f.bytes.length ≤ f.kind.limit := by
  rw [fields, List.mem_cons, List.mem_cons] at hf
  rcases hf with rfl | rfl | hf
  · simp [Field.u8, Field.word, Field.Kind.limit]
  · simp [Field.u16, Field.word, Field.Kind.limit]
  · exact length_le_limit_of_mem_body h hf

/-- The fields of a request fill a stream of the length that the request tells. -/
theorem exists_putAll_fields (h : content.Portable width) (swapped : Bool) :
    ∃ out, (FieldStream.writer (Packet.headLength + content.bodyLength width) swapped).putAll
        (content.fields width) = .ok out ∧ out.left = 0 ∧
      out.data = (content.fields width).flatMap (Field.wire swapped) := by
  have hlength := length_flatMap_fields width content
  have hroom : (FieldStream.writer (Packet.headLength + content.bodyLength width) swapped).HasRoom
      ((content.fields width).flatMap fun f => f.bytes).length :=
    ⟨rfl, rfl, Nat.le_of_eq hlength⟩
  obtain ⟨out, hput, hleft, hdata⟩ :=
    FieldStream.exists_putAll_of_hasRoom hroom fun f hf => length_le_limit_of_mem_fields h hf
  refine ⟨out, hput, ?_, ?_⟩
  · rw [hleft, hlength]
    exact Nat.sub_self _
  · rw [hdata]
    exact congrArg (· ++ _) (Buffer.filled_new _)

/-- A string is told from its length and what follows it. -/
theorem eq_of_textFields_eq {swapped : Bool} {text text' tail tail' : List UInt8}
    (h : text.length ≤ Packet.stringLimit) (h' : text'.length ≤ Packet.stringLimit)
    (heq : (textFields text).flatMap (Field.wire swapped) ++ tail =
      (textFields text').flatMap (Field.wire swapped) ++ tail') : text = text' ∧ tail = tail' := by
  have hwire (text : List UInt8) : (textFields text).flatMap (Field.wire swapped) =
      UInt8.ofNat text.length :: text := by
    rw [textFields, List.flatMap_cons, Field.wire_u8, List.flatMap_cons, List.flatMap_nil,
      List.append_nil]
    rfl
  rw [hwire, hwire, List.cons_append, List.cons_append, List.cons.injEq] at heq
  have hlength : text.length = text'.length := by
    have hvalue := congrArg UInt8.toNat heq.1
    simp only [Packet.stringLimit] at h h'
    rw [UInt8.toNat_ofNat', UInt8.toNat_ofNat'] at hvalue
    omega
  exact List.append_inj heq.2 hlength

theorem body_eq_of_wire_eq (heq : content.wire c = other.wire c) :
    content.kind.code = other.kind.code ∧ (content.body c.pulseWidth).flatMap (Field.wire c.swapped) =
      (other.body c.pulseWidth).flatMap (Field.wire c.swapped) := by
  rw [wire_eq, wire_eq, List.cons.injEq] at heq
  have hlength : ((Field.u16 (content.bodyLength c.pulseWidth)).wire c.swapped).length =
      ((Field.u16 (other.bodyLength c.pulseWidth)).wire c.swapped).length := by
    rw [Field.u16, Field.u16, Field.length_wire_word, Field.length_wire_word]
  exact ⟨heq.1, (List.append_inj heq.2 hlength).2⟩

theorem fits_of_portable {client : Client} {frequency : UInt32} {pulses : List UInt32}
    (h : (send frequency pulses).Portable client.pulseWidth) :
    Client.Signal.Fits client ⟨frequency, pulses.map client.pulseWidth.saturate⟩ := by
  refine ⟨?_, fun pulse hpulse => PulseWidth.le_longest_of_mem_map_saturate hpulse⟩
  have hcount := Nat.le_mul_of_pos_right pulses.length client.pulseWidth.bytes_pos
  simp only [Portable] at h
  rw [List.length_map]
  omega

theorem kind_saturated (width : PulseWidth) (content : Content) :
    (content.saturated width).kind = content.kind := by
  cases content <;> rfl

theorem kind_eq_of_code_eq {kind kind' : Packet.Kind} (h : kind.code = kind'.code) :
    kind = kind' := by
  have hread := Packet.Kind.ofCode_code kind
  rw [h, Packet.Kind.ofCode_code, Except.ok.injEq] at hread
  exact hread.symm

/-- Requests that are written alike are the same but for what the width leaves out. -/
theorem saturated_eq_of_wire_eq {client : Client} (h : content.Portable client.pulseWidth)
    (h' : other.Portable client.pulseWidth)
    (heq : content.wire client.settings = other.wire client.settings) :
    content.saturated client.pulseWidth = other.saturated client.pulseWidth := by
  rw [← wire_saturated, ← wire_saturated client.settings other] at heq
  obtain ⟨hcode, hbody⟩ := body_eq_of_wire_eq heq
  have hkind := kind_eq_of_code_eq hcode
  rw [kind_saturated, kind_saturated] at hkind
  cases content with
  | send frequency pulses =>
      cases other with
      | send frequency' pulses' =>
          have hwire : Client.Signal.wire client ⟨frequency, pulses.map client.pulseWidth.saturate⟩ =
              Client.Signal.wire client ⟨frequency', pulses'.map client.pulseWidth.saturate⟩ := by
            rw [Client.Signal.wire_eq, Client.Signal.wire_eq]
            exact hbody
          have hsignal := Client.Signal.eq_of_wire_eq (fits_of_portable h) (fits_of_portable h') hwire
          rw [Client.Signal.mk.injEq] at hsignal
          rw [saturated, saturated, hsignal.1, hsignal.2]
      | receive => nomatch hkind
      | config name ssid password => nomatch hkind
  | receive =>
      cases other with
      | send frequency pulses => nomatch hkind
      | receive => rfl
      | config name ssid password => nomatch hkind
  | config name ssid password =>
      cases other with
      | send frequency pulses => nomatch hkind
      | receive => nomatch hkind
      | config name' ssid' password' =>
          obtain ⟨hname, hssid, hpassword⟩ := h
          obtain ⟨hname', hssid', hpassword'⟩ := h'
          simp only [saturated, body, List.flatMap_cons, List.flatMap_nil, List.flatMap_append] at hbody
          obtain ⟨rfl, htexts⟩ := eq_of_textFields_eq hname hname' hbody
          obtain ⟨rfl, htext⟩ := eq_of_textFields_eq hssid hssid' htexts
          obtain ⟨rfl, -⟩ := eq_of_textFields_eq hpassword hpassword' htext
          rfl

end Request.Content

namespace Client

variable {client : Client} {content : Request.Content}

/-- The bytes that a client writes to ask for something. -/
def encode (client : Client) : Request.Content → Except Fault (List UInt8)
  | .send frequency pulses => client.sendRequest frequency pulses
  | .receive => client.receiveRequest
  | .config name ssid password => client.configRequest name ssid password

theorem pulsesBodyLength_eq (frequency : UInt32) (pulses : List UInt32) (width : PulseWidth) :
    Packet.pulsesBodyLength pulses.length width =
      Packet.checkLength ((Request.Content.send frequency pulses).bodyLength width) :=
  rfl

theorem encode_eq_request (h : content.Portable client.pulseWidth) :
    client.encode content = client.request content.kind (content.bodyLength client.pulseWidth)
      (content.body client.pulseWidth) := by
  have hlength : Packet.checkLength (content.bodyLength client.pulseWidth) =
      .ok (content.bodyLength client.pulseWidth) := if_pos h.bodyLength_le
  cases content with
  | send frequency pulses =>
      rw [encode, sendRequest, pulsesBodyLength_eq frequency, hlength]
      rfl
  | receive => rfl
  | config name ssid password =>
      have hany : ¬[name, ssid, password].any fun text => Packet.stringLimit < text.length := by
        obtain ⟨hname, hssid, hpassword⟩ := h
        simp [Nat.not_lt.mpr hname, Nat.not_lt.mpr hssid, Nat.not_lt.mpr hpassword]
      have hconfig : Packet.configBodyLength name ssid password =
          .ok ((Request.Content.config name ssid password).bodyLength client.pulseWidth) :=
        (if_neg hany).trans hlength
      rw [encode, configRequest, hconfig]
      rfl

theorem encode_of_putAll (h : content.Portable client.pulseWidth) {out : FieldStream}
    (hput : (FieldStream.writer (Packet.headLength + content.bodyLength client.pulseWidth)
      client.swapped).putAll (content.fields client.pulseWidth) = .ok out) :
    client.encode content = .ok out.data := by
  rw [Request.Content.fields] at hput
  rw [encode_eq_request h, request, hput]

theorem encode_of_portable (h : content.Portable client.pulseWidth) :
    client.encode content = .ok (content.wire client.settings) := by
  obtain ⟨out, hput, -, hdata⟩ := Request.Content.exists_putAll_fields h client.swapped
  rw [encode_of_putAll h hput, hdata, Request.Content.wire_eq_flatMap]
  rfl

theorem encode_of_not_portable (h : ¬content.Portable client.pulseWidth) :
    client.encode content = .error .payloadTooLarge := by
  cases content with
  | send frequency pulses =>
      have hlength : Packet.pulsesBodyLength pulses.length client.pulseWidth =
          .error .payloadTooLarge := if_neg h
      rw [encode, sendRequest, hlength]
  | receive => exact absurd trivial h
  | config name ssid password =>
      have hany : [name, ssid, password].any fun text => Packet.stringLimit < text.length := by
        refine Classical.byContradiction fun hnone => h ?_
        simpa [Request.Content.Portable, not_or, Nat.not_lt] using hnone
      have hlength : Packet.configBodyLength name ssid password = .error .payloadTooLarge :=
        if_pos hany
      rw [encode, configRequest, hlength]

end Client

end Infrared
