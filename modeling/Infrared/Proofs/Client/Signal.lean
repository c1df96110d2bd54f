import Infrared.Client
import Infrared.Proofs.Answer

namespace Infrared.Client

variable {client : Client} {signal : Signal} {body : List UInt8}

/-- The settings of a device that a client can talk to. -/
def settings (client : Client) : Config :=
  { swapped := client.swapped, pulseWidth := client.pulseWidth }

/-- The bytes that state a signal. -/
def Signal.wire (client : Client) (signal : Signal) : List UInt8 :=
  Layout.number client.swapped 4 signal.carrierFrequency.toNat ++
    (Layout.number client.swapped 2 signal.pulses.length ++
      signal.pulses.flatMap (Layout.pulse client.swapped client.pulseWidth))

/-- Whether a count can tell how many pulses a signal has, and the width holds them. -/
structure Signal.Fits (client : Client) (signal : Signal) : Prop where
  count_le : signal.pulses.length ≤ Packet.lengthLimit
  pulse_le : ∀ pulse ∈ signal.pulses, pulse ≤ client.pulseWidth.longest

/-- Whether a body has the length of its count of pulses. -/
def Consistent (client : Client) (body : List UInt8) : Prop :=
  ∃ count, count ≤ Packet.lengthLimit ∧
    (body.drop 4).take 2 = Layout.number client.swapped 2 count ∧
    body.length = Packet.pulsesHeadLength + count * client.pulseWidth.bytes

theorem Signal.wire_eq (client : Client) (signal : Signal) :
    signal.wire client = (Field.u32 signal.carrierFrequency.toNat).wire client.swapped ++
      ((Field.u16 signal.pulses.length).wire client.swapped ++
        (signal.pulses.map client.pulseField).flatMap (Field.wire client.swapped)) := by
  have hpulses : (signal.pulses.map client.pulseField).flatMap (Field.wire client.swapped) =
      signal.pulses.flatMap (Layout.pulse client.swapped client.pulseWidth) :=
    Request.Content.wire_pulses client.settings signal.pulses
  rw [wire, Field.u32, Field.u16, Layout.wire_word, Layout.wire_word, hpulses]

theorem Signal.length_wire (client : Client) (signal : Signal) :
    (signal.wire client).length =
      Packet.pulsesHeadLength + signal.pulses.length * client.pulseWidth.bytes := by
  rw [wire_eq]
  exact Request.Content.length_body client.settings (.send signal.carrierFrequency signal.pulses)

theorem wordValue_wire_word {width value : Nat} (h : value < Word.bound width) :
    client.wordValue ((Field.word width value).wire client.swapped) = value :=
  Field.number_wire_word client.swapped h

theorem wire_word_wordValue (bytes : List UInt8) :
    (Field.word bytes.length (client.wordValue bytes)).wire client.swapped = bytes :=
  Field.wire_word_number client.swapped bytes

theorem wordValue_lt (bytes : List UInt8) :
    client.wordValue bytes < Word.bound bytes.length :=
  Field.number_lt client.swapped bytes

theorem length_wire_pulseField (client : Client) (pulse : UInt32) :
    ((client.pulseField pulse).wire client.swapped).length = client.pulseWidth.bytes :=
  Request.Content.length_wire_pulseField client.settings pulse

theorem wordValue_wire_pulseField {pulse : UInt32} (h : pulse ≤ client.pulseWidth.longest) :
    client.wordValue ((client.pulseField pulse).wire client.swapped) = pulse.toNat := by
  have hlt : pulse.toNat < Word.bound client.pulseWidth.bytes :=
    Nat.lt_of_le_of_lt (UInt32.le_iff_toNat_le.mp h) client.pulseWidth.longest_lt
  rw [pulseField, PulseWidth.encode, PulseWidth.saturate_of_le h]
  exact wordValue_wire_word hlt

/-- Bytes of the width are those of a pulse. -/
theorem exists_wire_pulseField {bytes : List UInt8} (h : bytes.length = client.pulseWidth.bytes) :
    ∃ pulse, pulse ≤ client.pulseWidth.longest ∧
      (client.pulseField pulse).wire client.swapped = bytes := by
  have hlength : (Field.orient client.swapped .fixed bytes).length = client.pulseWidth.bytes := by
    rw [Field.length_orient, h]
  obtain ⟨pulse, hle, hencode⟩ := client.pulseWidth.exists_encode_eq hlength
  refine ⟨pulse, hle, ?_⟩
  rw [Field.wire, pulseField, hencode]
  exact Field.orient_orient _ _ _

theorem pulsesOf_wire {pulses : List UInt32}
    (hpulses : ∀ pulse ∈ pulses, pulse ≤ client.pulseWidth.longest) (got : Array UInt32) :
    (client.pulsesOf pulses.length
      ((pulses.map client.pulseField).flatMap (Field.wire client.swapped)) got).toList =
        got.toList ++ pulses := by
  induction pulses generalizing got with
  | nil => simp [pulsesOf]
  | cons pulse pulses ih =>
      have hlength := client.length_wire_pulseField pulse
      have hrest := ih fun other hother => hpulses other (List.mem_cons_of_mem _ hother)
      rw [List.map_cons, List.flatMap_cons, List.length_cons, pulsesOf, List.take_left' hlength,
        List.drop_left' hlength, wordValue_wire_pulseField (hpulses pulse List.mem_cons_self),
        UInt32.ofNat_toNat, hrest, Array.toList_push, List.append_assoc]
      rfl

theorem exists_wire_pulses {count : Nat} {bytes : List UInt8}
    (h : bytes.length = count * client.pulseWidth.bytes) :
    ∃ pulses : List UInt32, pulses.length = count ∧
      (∀ pulse ∈ pulses, pulse ≤ client.pulseWidth.longest) ∧
      (pulses.map client.pulseField).flatMap (Field.wire client.swapped) = bytes := by
  induction count generalizing bytes with
  | zero =>
      rw [Nat.zero_mul, List.length_eq_zero_iff] at h
      exact ⟨[], rfl, by simp, h.symm⟩
  | succ count ih =>
      rw [Nat.succ_mul] at h
      have hfront : (bytes.take client.pulseWidth.bytes).length = client.pulseWidth.bytes :=
        List.length_take_of_le (by omega)
      have hback : (bytes.drop client.pulseWidth.bytes).length =
          count * client.pulseWidth.bytes := by
        rw [List.length_drop]
        omega
      obtain ⟨pulse, hle, hpulse⟩ := client.exists_wire_pulseField hfront
      obtain ⟨pulses, hlength, hall, hwire⟩ := ih hback
      refine ⟨pulse :: pulses, by rw [List.length_cons, hlength], ?_, ?_⟩
      · intro p hp
        rcases List.mem_cons.mp hp with rfl | hp
        · exact hle
        · exact hall p hp
      · rw [List.map_cons, List.flatMap_cons, hpulse, hwire, List.take_append_drop]

theorem consistent_wire (h : signal.Fits client) : client.Consistent (signal.wire client) := by
  have hcarrier : ((Field.u32 signal.carrierFrequency.toNat).wire client.swapped).length = 4 :=
    Field.length_wire_word _ _ _
  have hcount : ((Field.u16 signal.pulses.length).wire client.swapped).length = 2 :=
    Field.length_wire_word _ _ _
  refine ⟨signal.pulses.length, h.count_le, ?_, signal.length_wire client⟩
  rw [Signal.wire_eq, List.drop_left' hcarrier, List.take_left' hcount]
  exact Layout.wire_word _ _ _

theorem exists_wire_of_consistent (h : client.Consistent body) :
    ∃ signal : Signal, signal.Fits client ∧ signal.wire client = body := by
  obtain ⟨count, hcount, hword, hlength⟩ := h
  rw [Packet.pulsesHeadLength] at hlength
  have hfour : (body.take 4).length = 4 := List.length_take_of_le (by omega)
  have hrest : (body.drop 6).length = count * client.pulseWidth.bytes := by
    rw [List.length_drop]
    omega
  obtain ⟨pulses, rfl, hall, hpulses⟩ := client.exists_wire_pulses hrest
  have hlt := client.wordValue_lt (body.take 4)
  rw [hfour, Word.bound_four] at hlt
  have hcarrier : (UInt32.ofNat (client.wordValue (body.take 4))).toNat =
      client.wordValue (body.take 4) := by
    rw [UInt32.toNat_ofNat']
    omega
  have hfront : (Field.u32 (client.wordValue (body.take 4))).wire client.swapped = body.take 4 := by
    have hwire := client.wire_word_wordValue (body.take 4)
    rwa [hfour] at hwire
  refine ⟨⟨UInt32.ofNat (client.wordValue (body.take 4)), pulses⟩, ⟨hcount, hall⟩, ?_⟩
  rw [Signal.wire_eq, hcarrier, hfront, hpulses, Field.u16, Layout.wire_word, ← hword, ← List.drop_drop (i := 2) (j := 4),
    List.take_append_drop, List.take_append_drop]

theorem consistent_iff_exists_wire :
    client.Consistent body ↔ ∃ signal : Signal, signal.Fits client ∧ signal.wire client = body := by
  constructor
  · exact exists_wire_of_consistent
  · rintro ⟨signal, hfits, rfl⟩
    exact consistent_wire hfits

/-- A signal that a device states is read as it is. -/
theorem signalOf_wire (h : signal.Fits client) : client.signalOf (signal.wire client) = .ok signal := by
  obtain ⟨carrier, pulses⟩ := signal
  have hcarrier : ((Field.u32 carrier.toNat).wire client.swapped).length = 4 :=
    Field.length_wire_word _ _ _
  have hcount : ((Field.u16 pulses.length).wire client.swapped).length = 2 :=
    Field.length_wire_word _ _ _
  have hlimit := h.count_le
  simp only [Packet.lengthLimit] at hlimit
  have hmany : client.wordValue ((Field.u16 pulses.length).wire client.swapped) = pulses.length :=
    wordValue_wire_word (by rw [Word.bound_two]; omega)
  have hfrequency : client.wordValue ((Field.u32 carrier.toNat).wire client.swapped) = carrier.toNat :=
    wordValue_wire_word (by rw [Word.bound_four]; exact carrier.toNat_lt)
  have hhead : ((Field.u32 carrier.toNat).wire client.swapped ++
      (Field.u16 pulses.length).wire client.swapped).length = Packet.pulsesHeadLength := by
    rw [List.length_append, hcarrier, hcount]
    rfl
  have hlength := Signal.length_wire client ⟨carrier, pulses⟩
  rw [Signal.wire_eq] at hlength ⊢
  simp only [signalOf]
  rw [hlength, List.drop_left' hcarrier, List.take_left' hcount, hmany, List.take_left' hcarrier,
    hfrequency, ← List.append_assoc, List.drop_left' hhead, if_neg (by omega), if_neg (by simp),
    pulsesOf_wire h.pulse_le, UInt32.ofNat_toNat]
  rfl

theorem Signal.eq_of_wire_eq {other : Signal} (h : signal.Fits client) (h' : other.Fits client)
    (heq : signal.wire client = other.wire client) : signal = other := by
  have hread := signalOf_wire h
  rw [heq, signalOf_wire h', Except.ok.injEq] at hread
  exact hread.symm

theorem signalOf_of_not_consistent (h : ¬client.Consistent body) :
    client.signalOf body = .error .lengthMismatch := by
  simp only [signalOf]
  split
  · rfl
  · rename_i hle
    split
    · rfl
    · rename_i hlength
      rw [Packet.pulsesHeadLength] at hle
      have htwo : ((body.drop 4).take 2).length = 2 :=
        List.length_take_of_le (by rw [List.length_drop]; omega)
      have hlt := client.wordValue_lt ((body.drop 4).take 2)
      have hwire := client.wire_word_wordValue ((body.drop 4).take 2)
      rw [htwo, Word.bound_two] at hlt
      rw [htwo, Layout.wire_word] at hwire
      exact absurd ⟨_, Nat.le_of_lt_succ hlt, hwire.symm, Decidable.not_not.mp hlength⟩ h

theorem signalOf_eq_ok_iff :
    client.signalOf body = .ok signal ↔ signal.Fits client ∧ signal.wire client = body := by
  constructor
  · intro h
    have hconsistent : client.Consistent body := by
      refine Classical.byContradiction fun hnot => ?_
      rw [signalOf_of_not_consistent hnot] at h
      simp at h
    obtain ⟨other, hfits, rfl⟩ := exists_wire_of_consistent hconsistent
    rw [signalOf_wire hfits, Except.ok.injEq] at h
    subst h
    exact ⟨hfits, rfl⟩
  · rintro ⟨hfits, rfl⟩
    exact signalOf_wire hfits

theorem signalOf_eq_error_iff {fault : Fault} :
    client.signalOf body = .error fault ↔ fault = .lengthMismatch ∧ ¬client.Consistent body := by
  constructor
  · intro h
    have hnot : ¬client.Consistent body := by
      intro hconsistent
      obtain ⟨signal, hfits, rfl⟩ := exists_wire_of_consistent hconsistent
      rw [signalOf_wire hfits] at h
      simp at h
    rw [signalOf_of_not_consistent hnot, Except.error.injEq] at h
    exact ⟨h.symm, hnot⟩
  · rintro ⟨rfl, hnot⟩
    exact signalOf_of_not_consistent hnot

end Infrared.Client
