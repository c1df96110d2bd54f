import Infrared.Proofs.Request.Draft

namespace Infrared

/-- What a configuration promises if a device can be run with it. -/
structure Config.Valid (c : Config) : Prop where
  headLength_le_send : Packet.headLength ≤ c.sendBufferLength
  headLength_le_receive : Packet.headLength ≤ c.receiveBufferLength
  pulsesMax_ne_zero : c.pulsesMax ≠ 0
  bodyLength_le : Packet.pulsesHeadLength + c.scratchLength ≤ Packet.lengthLimit
  nameLengthMax_le : c.nameLengthMax ≤ Packet.stringLimit
  signalTimeout_ne_zero : c.signalTimeout ≠ 0
  pulseTimeout_ne_zero : c.pulseTimeout ≠ 0
  beaconInterval_ne_zero : c.beaconInterval ≠ 0

theorem Config.valid_of_validate {c : Config} (h : c.validate = .ok ()) : c.Valid := by
  have husable : c.isUsable = true := by
    rw [validate] at h
    split at h
    · assumption
    · simp at h
  simp only [isUsable, Bool.and_eq_true, decide_eq_true_eq, bne_iff_ne] at husable
  obtain ⟨⟨⟨⟨⟨⟨⟨hsend, hreceive⟩, hpulses⟩, hbody⟩, hname⟩, hsignal⟩, hpulse⟩, hbeacon⟩ := husable
  refine ⟨hsend, hreceive, hpulses, ?_, hname, hsignal, hpulse, hbeacon⟩
  simp only [Packet.pulsesBodyLength, Packet.checkLength] at hbody
  split at hbody
  · assumption
  · simp [Except.isOk, Except.toBool] at hbody

theorem Config.capacity_scratchLength (c : Config) :
    c.pulseWidth.capacity c.scratchLength = c.pulsesMax.toNat := by
  have hmax := c.pulsesMax.toNat_lt
  rw [PulseWidth.capacity, scratchLength, Nat.mul_div_cancel _ c.pulseWidth.bytes_pos]
  omega

namespace Field

theorem length_wire (swapped : Bool) (f : Field) : (f.wire swapped).length = f.bytes.length :=
  length_orient _ _ _

@[simp] theorem length_wire_word (swapped : Bool) (width value : Nat) :
    ((word width value).wire swapped).length = width := by
  simp [length_wire, word]

def number (swapped : Bool) (bytes : List UInt8) : Nat :=
  Word.value (orient swapped .fixed bytes)

theorem number_wire_word (swapped : Bool) {width value : Nat} (h : value < Word.bound width) :
    number swapped ((word width value).wire swapped) = value := by
  rw [number, wire, word, orient_orient]
  exact Word.value_bytes_of_lt h

theorem wire_word_number (swapped : Bool) (bytes : List UInt8) :
    (word bytes.length (number swapped bytes)).wire swapped = bytes := by
  have hlength : (orient swapped .fixed bytes).length = bytes.length := length_orient _ _ _
  rw [wire, word, number, ← hlength, Word.bytes_value, orient_orient]

theorem number_lt (swapped : Bool) (bytes : List UInt8) :
    number swapped bytes < Word.bound bytes.length := by
  have h := Word.value_lt (orient swapped .fixed bytes)
  rwa [length_orient] at h

theorem wire_u8 (swapped : Bool) (value : Nat) : (u8 value).wire swapped = [UInt8.ofNat value] := by
  cases swapped
  · rfl
  · rfl

theorem number_singleton (swapped : Bool) (byte : UInt8) : number swapped [byte] = byte.toNat := by
  cases swapped
  · simp [number, orient, Word.value]
  · simp [number, orient, Word.value]

end Field

namespace Request

inductive Verdict where
  /-- A request may still come of the bytes. -/
  | waiting
  | accepted (request : Request) (kept : List UInt8)
  | refused
  deriving DecidableEq, Repr

/-- What the bytes of a body are, if the body begins with a part and has a given length. -/
def bodyVerdict (c : Config) (declared : Nat) (part : Part) (body : List UInt8) : Verdict :=
  match (Draft.mk part [] body).advance c with
  | none => .refused
  | some ⟨.complete request, kept, rest⟩ =>
    if body.length - rest.length = declared then .accepted request kept else .refused
  | some _ => if body.length < declared then .waiting else .refused

/-- What the bytes that follow a part's type are. -/
def tailVerdict (c : Config) (part : Part) (bytes : List UInt8) : Verdict :=
  if bytes.length < 2 then .waiting
  else bodyVerdict c (Field.number c.swapped (bytes.take 2)) part (bytes.drop 2)

/-- What the bytes of a connection are. -/
def verdict (c : Config) : List UInt8 → Verdict
  | [] => .waiting
  | code :: bytes =>
    match Part.ofCode code with
    | .ok part => tailVerdict c part bytes
    | .error _ => .refused

theorem Draft.demand_eq_complete_iff (c : Config) (d : Draft) :
    d.demand c = .complete ↔ ∃ request, d.part = .complete request := by
  obtain ⟨part, kept, rest⟩ := d
  cases part with
  | pulses carrier left => cases left <;> simp [demand, Part.demand]
  | _ => simp [demand, Part.demand]

theorem Draft.length_rest_lt_of_short {c : Config} {d e : Draft} {bytes : List UInt8}
    (hshort : d.step c = .short) (h : (d.push bytes).step c = .next e) :
    e.rest.length < bytes.length := by
  unfold step at hshort h
  rw [demand_push] at h
  split at hshort
  · rename_i width next hdemand
    rw [hdemand] at h
    split at hshort
    · rename_i hlt
      dsimp only at h
      split at h
      · simp at h
      · rename_i hle
        split at h
        · simp only [Step.next.injEq] at h
          subst h
          simp only [push, List.length_append, List.length_drop] at hle ⊢
          omega
        · simp at h
    · split at hshort
      · simp at hshort
      · simp at hshort
  · rename_i kind length next hdemand
    rw [hdemand] at h
    split at hshort
    · simp at hshort
    · split at hshort
      · rename_i hlt
        dsimp only at h
        split at h
        · simp at h
        · split at h
          · simp at h
          · rename_i hle
            simp only [Step.next.injEq] at h
            subst h
            simp only [push, List.length_append, List.length_drop] at hle ⊢
            omega
      · simp at hshort
  · simp at hshort
  · rename_i hdemand
    rw [hdemand] at h
    simp at h

theorem Draft.length_rest_lt_of_advance {c : Config} {d e : Draft} {bytes : List UInt8}
    (hshort : d.step c = .short) (hopen : d.demand c ≠ .complete)
    (h : (d.push bytes).advance c = some e) (hcomplete : e.demand c = .complete) :
    e.rest.length < bytes.length := by
  cases hstep : (d.push bytes).step c with
  | next f =>
      have hlt := length_rest_lt_of_short hshort hstep
      rw [advance_of_next hstep] at h
      obtain ⟨decoded, hrest⟩ := exists_append_of_advance h
      have hlength := congrArg List.length hrest
      rw [List.length_append] at hlength
      omega
  | short =>
      rw [advance_of_short hstep, Option.some.injEq] at h
      rw [← h, demand_push] at hcomplete
      exact absurd hcomplete hopen
  | refused => simp [advance_of_refused hstep] at h

theorem bodyVerdict_append_of_accepted {c : Config} {declared : Nat} {part : Part}
    {body kept : List UInt8} {request : Request}
    (h : bodyVerdict c declared part body = .accepted request kept) (bytes : List UInt8) :
    bodyVerdict c declared part (body ++ bytes) = .accepted request kept := by
  have hpush := Draft.advance_push c ⟨part, [], body⟩ bytes
  simp only [Draft.push] at hpush
  unfold bodyVerdict at h ⊢
  split at h
  · simp at h
  · rename_i request' kept' rest hadvance
    have hstep : Draft.step c ⟨.complete request', kept', rest ++ bytes⟩ = .short := rfl
    rw [hadvance, Option.bind_some] at hpush
    simp only [Draft.advance_of_short hstep] at hpush
    simp only [hpush, List.length_append]
    split at h
    · rename_i hlength
      rw [if_pos (by omega)]
      exact h
    · simp at h
  · split at h
    · simp at h
    · simp at h

theorem bodyVerdict_append_of_refused {c : Config} {declared : Nat} {part : Part}
    {body : List UInt8} (h : bodyVerdict c declared part body = .refused) (bytes : List UInt8) :
    bodyVerdict c declared part (body ++ bytes) = .refused := by
  have hpush := Draft.advance_push c ⟨part, [], body⟩ bytes
  simp only [Draft.push] at hpush
  unfold bodyVerdict at h ⊢
  split at h
  · rename_i hadvance
    rw [hadvance, Option.bind_none] at hpush
    rw [hpush]
  · rename_i request' kept' rest hadvance
    have hstep : Draft.step c ⟨.complete request', kept', rest ++ bytes⟩ = .short := rfl
    rw [hadvance, Option.bind_some] at hpush
    simp only [Draft.advance_of_short hstep] at hpush
    simp only [hpush, List.length_append]
    split at h
    · simp at h
    · rename_i hlength
      rw [if_neg (by omega)]
  · rename_i e hopen hadvance
    have hshort := Draft.step_eq_short_of_advance hadvance
    have hdemand : e.demand c ≠ .complete := by
      rw [Ne, Draft.demand_eq_complete_iff]
      rintro ⟨request, hpart⟩
      exact hopen request e.kept e.rest (by rw [← hpart])
    rw [hadvance, Option.bind_some] at hpush
    split at h
    · simp at h
    · rename_i hlength
      split
      · rfl
      · rename_i request kept rest hfull
        have hlt := Draft.length_rest_lt_of_advance hshort hdemand (hpush.symm.trans hfull) rfl
        simp only [List.length_append] at hlt ⊢
        rw [if_neg (by omega)]
      · rw [if_neg (by rw [List.length_append]; omega)]

theorem tailVerdict_append_of_ne_waiting {c : Config} {part : Part} {bytes : List UInt8}
    (h : tailVerdict c part bytes ≠ .waiting) (more : List UInt8) :
    tailVerdict c part (bytes ++ more) = tailVerdict c part bytes := by
  unfold tailVerdict at h ⊢
  split at h
  · simp at h
  · rename_i hlength
    have hlong : ¬(bytes ++ more).length < 2 := by rw [List.length_append]; omega
    rw [if_neg hlong, if_neg hlength, List.take_append_of_le_length (by omega),
      List.drop_append_of_le_length (by omega)]
    cases hverdict : bodyVerdict c (Field.number c.swapped (bytes.take 2)) part (bytes.drop 2) with
    | waiting => exact absurd hverdict h
    | accepted request kept => exact bodyVerdict_append_of_accepted hverdict more
    | refused => exact bodyVerdict_append_of_refused hverdict more

/-- Once something has come of the bytes, what follows them changes nothing. -/
theorem verdict_append_of_ne_waiting {c : Config} {bytes : List UInt8}
    (h : verdict c bytes ≠ .waiting) (more : List UInt8) :
    verdict c (bytes ++ more) = verdict c bytes := by
  cases bytes with
  | nil => simp [verdict] at h
  | cons code bytes =>
      simp only [List.cons_append, verdict] at h ⊢
      cases hpart : Part.ofCode code with
      | ok part =>
          rw [hpart] at h
          exact tailVerdict_append_of_ne_waiting h more
      | error fault => rfl

end Request

end Infrared
