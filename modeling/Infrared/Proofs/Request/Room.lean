import Infrared.Proofs.Access
import Infrared.Proofs.Request.Resumption

namespace Infrared

/-- Whether a fault says that something is wrong with a request. -/
def Fault.OfRequest : Fault → Prop
  | unknownType _ | lengthMismatch | payloadTooLarge => True
  | _ => False

namespace Request

open Access

/-- A word is collected in front of the bytes that are held. -/
def Intake.wordAccesses (i : Intake) (width : Nat) : List Access :=
  .slice i.inbound.held.length 0 width :: i.inbound.moveAccesses width

def Intake.storeAccesses (i : Intake) (length : Nat) : List Access :=
  i.scratch.spareAccess length :: i.inbound.moveAccesses length

namespace Part

/-- What reading the next field takes for granted. The pulses that were read are counted, and their bytes are
all that the store has. -/
def stepAccesses (l : Limits) (i : Intake) : Part → List Access
  | .frequency => i.wordAccesses 4
  | .count _ => i.wordAccesses 2
  | .pulses _ 0 => []
  | .pulses _ (_ + 1) =>
    .count (i.scratch.size / l.pulseWidth.bytes + 1) :: i.storeAccesses l.pulseWidth.bytes
  | .nameLength | .ssidLength _ | .passwordLength _ _ => i.wordAccesses 1
  | .name length | .ssid _ length | .password _ _ length => i.storeAccesses length
  | .complete _ => []

def accesses (l : Limits) (part : Part) (i : Intake) : List Access :=
  part.stepAccesses l i ++
    match _h : part.step l i with
    | (.ok (some next), i) => next.accesses l i
    | _ => []
termination_by part.remaining
decreasing_by exact remaining_lt_of_step (by assumption)

end Part

namespace Reading

def lengthAccesses (l : Limits) (part : Part) (i : Intake) : List Access :=
  i.wordAccesses 2 ++
    match i.word 2 with
    | (.ok (some _), i) => part.accesses l i
    | _ => []

def kindAccesses (l : Limits) (i : Intake) : List Access :=
  i.wordAccesses 1 ++
    match i.word 1 with
    | (.ok (some code), i) =>
      match Part.ofCode (UInt8.ofNat code) with
      | .ok part => lengthAccesses l part i
      | .error _ => []
    | _ => []

def accesses (l : Limits) : Reading → Intake → List Access
  | kind, i => kindAccesses l i
  | length part, i => lengthAccesses l part i
  | body _ _ part, i => part.accesses l i

end Reading

variable {c : Config}

/-- Whether a store with a number of bytes in it has room for all that a part keeps there. -/
def Part.HasRoom (c : Config) (taken : Nat) : Part → Prop
  | .frequency | .count _ => taken = 0
  | .pulses _ left => left * c.pulseWidth.bytes ≤ c.scratchLength - taken
  | .name length | .ssid _ length | .password _ _ length => length ≤ c.scratchLength - taken
  | _ => True

/-- Whether there is room for what is read, and after it for the part that comes then; a number is refused only
for want of room. -/
def Demand.HasRoom (c : Config) (taken : Nat) : Demand → Prop
  | .word _ next => ∀ value,
    match next value with
    | .ok part => part.HasRoom c taken
    | .error fault => fault = .payloadTooLarge
  | .store kind length next =>
    length ≤ c.scratchLength - taken ∧ length ≤ kind.limit ∧
      ∀ span, (next span).HasRoom c (taken + length)
  | .nothing next => next.HasRoom c taken
  | .complete => True

namespace Part

theorem hasRoom_of_ofKind? {kind : Packet.Kind} {part : Part} (h : ofKind? kind = some part) :
    part.HasRoom c 0 := by
  cases kind <;> simp only [ofKind?, Option.some.injEq, reduceCtorEq] at h
  · exact h ▸ rfl
  · exact h ▸ trivial
  · exact h ▸ trivial

theorem hasRoom_of_ofCode {code : UInt8} {part : Part} (h : ofCode code = .ok part) :
    part.HasRoom c 0 := by
  rw [ofCode] at h
  split at h
  · split at h
    · rename_i hfirst
      simp only [Except.ok.injEq] at h
      exact h ▸ hasRoom_of_ofKind? hfirst
    · simp at h
  · simp at h

/-- A part for which there is room is one that was asked for. -/
theorem hasRoom_ifLeft {taken length : Nat} {part : Part}
    (h : length ≤ c.scratchLength - taken → part.HasRoom c taken) :
    match ifLeft (c.scratchLength - taken) length part with
    | .ok part => part.HasRoom c taken
    | .error fault => fault = .payloadTooLarge := by
  rw [ifLeft]
  split
  · rename_i heq
    split at heq
    · simp at heq
    · rename_i hroom
      simp only [Except.ok.injEq] at heq
      exact heq ▸ h (Nat.le_of_not_lt hroom)
  · rename_i heq
    split at heq
    · simpa using heq.symm
    · simp at heq

theorem hasRoom_demand (hvalid : c.Valid) {taken : Nat} {part : Part} (h : part.HasRoom c taken) :
    (part.demand (limits c) c.scratchLength (c.scratchLength - taken)).HasRoom c taken := by
  have hbody := hvalid.bodyLength_le
  have hraw {length : Nat} (hlength : length ≤ c.scratchLength - taken) :
      length ≤ Field.Kind.raw.limit := by
    simp only [Packet.lengthLimit, Field.Kind.limit] at hbody ⊢
    omega
  cases part with
  | frequency => exact fun _ => h
  | count carrier =>
      intro value
      have htaken : taken = 0 := h
      subst htaken
      dsimp only
      by_cases hfew : (limits c).pulseWidth.capacity c.scratchLength < value
      · rw [if_pos hfew]
      · rw [if_neg hfew]
        have hvalue : value ≤ c.scratchLength / c.pulseWidth.bytes := by
          rw [PulseWidth.capacity] at hfew
          simp only [limits] at hfew
          omega
        exact (Nat.le_div_iff_mul_le c.pulseWidth.bytes_pos).mp hvalue
  | pulses carrier left =>
      cases left with
      | zero => trivial
      | succ left =>
          have hleft : (left + 1) * c.pulseWidth.bytes ≤ c.scratchLength - taken := h
          rw [Nat.succ_mul] at hleft
          refine ⟨?_, ?_, ?_⟩
          · simp only [limits]
            omega
          · simp only [limits]
            cases c.pulseWidth <;> decide
          · intro span
            simp only [HasRoom, limits]
            omega
  | nameLength =>
      intro value
      dsimp only
      by_cases hname : (limits c).nameLength < value
      · rw [if_pos hname]
      · rw [if_neg hname]
        exact hasRoom_ifLeft fun h => h
  | name length => exact ⟨h, hraw h, fun _ => trivial⟩
  | ssidLength nameSpan => exact fun _ => hasRoom_ifLeft fun h => h
  | ssid nameSpan length => exact ⟨h, hraw h, fun _ => trivial⟩
  | passwordLength nameSpan ssidSpan => exact fun _ => hasRoom_ifLeft fun h => h
  | password nameSpan ssidSpan length => exact ⟨h, hraw h, fun _ => trivial⟩
  | complete request => trivial

end Part

namespace Draft

variable {d e : Draft}

def HasRoom (c : Config) (d : Draft) : Prop :=
  d.part.HasRoom c d.kept.length

theorem HasRoom.demand (h : d.HasRoom c) (hvalid : c.Valid) : (d.demand c).HasRoom c d.kept.length :=
  Part.hasRoom_demand hvalid h

theorem HasRoom.step (h : d.HasRoom c) (hvalid : c.Valid) (hstep : d.step c = .next e) :
    e.HasRoom c := by
  have hroom := h.demand hvalid
  rw [Draft.step] at hstep
  split at hstep
  · rename_i width next hdemand
    rw [hdemand] at hroom
    split at hstep
    · simp at hstep
    · split at hstep
      · rename_i part hnext
        simp only [Step.next.injEq] at hstep
        subst hstep
        have hpart := hroom (d.value c width)
        rwa [hnext] at hpart
      · simp at hstep
  · rename_i kind length next hdemand
    rw [hdemand] at hroom
    split at hstep
    · simp at hstep
    · split at hstep
      · simp at hstep
      · rename_i hlength
        simp only [Step.next.injEq] at hstep
        subst hstep
        have hkept : (d.kept ++ Field.orient c.swapped kind (d.rest.take length)).length =
            d.kept.length + length := by
          rw [List.length_append, Field.length_orient, List.length_take]
          omega
        show Part.HasRoom c _ _
        rw [hkept]
        exact hroom.2.2 _
  · rename_i next hdemand
    rw [hdemand] at hroom
    simp only [Step.next.injEq] at hstep
    subst hstep
    exact hroom
  · simp at hstep

theorem HasRoom.advance (h : d.HasRoom c) (hvalid : c.Valid) (hadvance : d.advance c = some e) :
    e.HasRoom c := by
  induction d using advance_induction (c := c) with
  | next d f hstep ih => exact ih (h.step hvalid hstep) (by rwa [advance_of_next hstep] at hadvance)
  | short d hstep =>
      rw [advance_of_short hstep, Option.some.injEq] at hadvance
      exact hadvance ▸ h
  | refused d hstep => simp [advance_of_refused hstep] at hadvance

end Draft

namespace Part

theorem accesses_of_some {l : Limits} {part next : Part} {i j : Intake}
    (h : part.step l i = (.ok (some next), j)) :
    part.accesses l i = part.stepAccesses l i ++ next.accesses l j := by
  rw [accesses]
  split
  · simp_all
  · simp_all

theorem accesses_of_none {l : Limits} {part : Part} {i j : Intake}
    (h : part.step l i = (.ok none, j)) : part.accesses l i = part.stepAccesses l i := by
  rw [accesses]
  split
  · simp_all
  · rw [List.append_nil]

theorem accesses_of_error {l : Limits} {part : Part} {i j : Intake} {fault : Fault}
    (h : part.step l i = (.error fault, j)) : part.accesses l i = part.stepAccesses l i := by
  rw [accesses]
  split
  · simp_all
  · rw [List.append_nil]

end Part

namespace Intake

variable {i j : Intake} {d e : Draft}

theorem allInRange_wordAccesses (i : Intake) {width : Nat} (hposition : i.inbound.position ≤ width)
    (hwidth : width ≤ Field.Kind.fixed.limit) : AllInRange (i.wordAccesses width) := by
  have hheld := i.inbound.length_held
  have hlength : width ≤ Packet.lengthLimit := Nat.le_trans hwidth (by decide)
  refine allInRange_cons.mpr ⟨?_, i.inbound.allInRange_moveAccesses hposition hlength⟩
  simp only [InRange]
  omega

theorem allInRange_storeAccesses (i : Intake) {length : Nat} (hroom : length ≤ i.scratch.left)
    (hlength : length ≤ Packet.lengthLimit) (hposition : i.inbound.position ≤ length) :
    AllInRange (i.storeAccesses length) :=
  allInRange_cons.mpr
    ⟨i.scratch.inRange_spareAccess hroom, i.inbound.allInRange_moveAccesses hposition hlength⟩

theorem position_word_of_some (h : i.Fits c) {width value : Nat}
    (hword : i.word width = (.ok (some value), j)) : j.inbound.position = 0 := by
  rw [word_eq, FieldStream.readWord_eq h.side_eq] at hword
  simp only [Prod.mk.injEq, Except.ok.injEq, Option.ite_none_right_eq_some] at hword
  obtain ⟨⟨hdone, -⟩, rfl⟩ := hword
  show (FieldStream.take _ _).2.2.position = 0
  rw [FieldStream.position_take, hdone]
  rfl

theorem word_ne_error (h : i.Fits c) {width : Nat} {fault : Fault} :
    i.word width ≠ (.error fault, j) := by
  rw [word_eq, FieldStream.readWord_eq h.side_eq]
  simp

theorem store_ne_error (h : i.Fits c) {kind : Field.Kind} {length : Nat} {fault : Fault}
    (hroom : length ≤ i.scratch.left) (hlimit : length ≤ kind.limit) :
    i.store kind length ≠ (.error fault, j) := by
  rw [store_eq h hroom hlimit]
  split
  · simp
  · simp

namespace Tracks

/-- No more of a field was moved than the field has. -/
theorem position_le_of_word (h : i.Tracks c d) {width : Nat} {next : Nat → Except Fault Part}
    (hdemand : d.demand c = .word width next) : i.inbound.position ≤ width := by
  obtain ⟨taken, -, hposition, hholds⟩ := h.exists_taken
  rw [hdemand] at hholds
  have hlength := hholds.2.length_le
  rw [Field.length_wire, List.length_take] at hlength
  omega

theorem position_le_of_store (h : i.Tracks c d) {kind : Field.Kind} {length : Nat}
    {next : Span → Part} (hdemand : d.demand c = .store kind length next) :
    i.inbound.position ≤ length := by
  obtain ⟨taken, -, hposition, hholds⟩ := h.exists_taken
  rw [hdemand] at hholds
  have hprefix : taken <+: (Field.mk kind (i.scratch.spareFront length)).wire i.inbound.swapped :=
    hholds
  have hlength := hprefix.length_le
  rw [Field.length_wire, Buffer.spareFront_eq_take, List.length_take] at hlength
  omega

theorem allInRange_word (h : i.Tracks c d) {width : Nat} {next : Nat → Except Fault Part}
    (hdemand : d.demand c = .word width next) : AllInRange (i.wordAccesses width) := by
  obtain ⟨taken, -, -, hholds⟩ := h.exists_taken
  rw [hdemand] at hholds
  exact i.allInRange_wordAccesses (h.position_le_of_word hdemand) hholds.1

theorem allInRange_store (hvalid : c.Valid) (h : i.Tracks c d) (hroom : d.HasRoom c)
    {kind : Field.Kind} {length : Nat} {next : Span → Part}
    (hdemand : d.demand c = .store kind length next) : AllInRange (i.storeAccesses length) := by
  have hleft := hroom.demand hvalid
  rw [hdemand] at hleft
  apply i.allInRange_storeAccesses
  · rw [h.left_eq]
    exact hleft.1
  · exact Nat.le_trans hleft.2.1 kind.limit_le
  · exact h.position_le_of_store hdemand

theorem allInRange_stepAccesses (hvalid : c.Valid) (h : i.Tracks c d) (hroom : d.HasRoom c) :
    AllInRange (d.part.stepAccesses (limits c) i) := by
  obtain ⟨part, kept, rest⟩ := d
  cases part with
  | frequency => exact h.allInRange_word rfl
  | count carrier => exact h.allInRange_word rfl
  | pulses carrier left =>
      cases left with
      | zero => exact allInRange_nil
      | succ left =>
          refine allInRange_cons.mpr ⟨?_, h.allInRange_store hvalid hroom rfl⟩
          have hleft : (left + 1) * c.pulseWidth.bytes ≤ c.scratchLength - kept.length := hroom
          have hbytes := c.pulseWidth.bytes_pos
          have hbody := hvalid.bodyLength_le
          have hsize : i.scratch.size = kept.length := by
            rw [← Buffer.length_filled, h.filled_eq]
          have hread : i.scratch.size / c.pulseWidth.bytes ≤ i.scratch.size := Nat.div_le_self _ _
          rw [Nat.succ_mul] at hleft
          show _ + 1 ≤ Packet.lengthLimit
          simp only [limits]
          omega
  | nameLength => exact h.allInRange_word rfl
  | name length => exact h.allInRange_store hvalid hroom rfl
  | ssidLength nameSpan => exact h.allInRange_word rfl
  | ssid nameSpan length => exact h.allInRange_store hvalid hroom rfl
  | passwordLength nameSpan ssidSpan => exact h.allInRange_word rfl
  | password nameSpan ssidSpan length => exact h.allInRange_store hvalid hroom rfl
  | complete request => exact allInRange_nil

theorem allInRange_accesses (hvalid : c.Valid) (h : i.Tracks c d) (hroom : d.HasRoom c) :
    AllInRange (d.part.accesses (limits c) i) := by
  induction d using Draft.advance_induction (c := c) generalizing i with
  | next d e hstep ih =>
      obtain ⟨j, hj, htracks⟩ := h.step_of_next hstep
      rw [limits, Part.accesses_of_some hj]
      exact allInRange_append.mpr
        ⟨h.allInRange_stepAccesses hvalid hroom, ih htracks (hroom.step hvalid hstep)⟩
  | short d hstep =>
      obtain ⟨j, hj, -⟩ := h.step_of_short hstep
      rw [limits, Part.accesses_of_none hj]
      exact h.allInRange_stepAccesses hvalid hroom
  | refused d hstep =>
      obtain ⟨fault, j, hj, -⟩ := h.step_of_refused hstep
      rw [limits, Part.accesses_of_error hj]
      exact h.allInRange_stepAccesses hvalid hroom

/-- What is refused is a number for which there is no room. -/
theorem eq_of_step_error (hvalid : c.Valid) (h : i.Tracks c d) (hroom : d.HasRoom c) {fault : Fault}
    (hstep : d.part.step (limits c) i = (.error fault, j)) : fault = .payloadTooLarge := by
  have hleft := hroom.demand hvalid
  rw [limits, h.step_eq] at hstep
  cases hdemand : d.demand c with
  | word width next =>
      rw [hdemand] at hstep hleft
      dsimp only at hstep
      rw [Part.afterWord] at hstep
      split at hstep
      · rename_i value k hword
        have hnext := hleft value
        split at hstep
        · simp at hstep
        · rename_i hfault
          rw [hfault] at hnext
          simp only [Prod.mk.injEq, Except.error.injEq] at hstep
          exact hstep.1 ▸ hnext
      · simp at hstep
      · rename_i hword
        exact absurd hword (word_ne_error h.fits)
  | store kind length next =>
      rw [hdemand] at hstep hleft
      dsimp only at hstep
      rw [Part.afterStore] at hstep
      split at hstep
      · simp at hstep
      · simp at hstep
      · rename_i hstore
        exact absurd hstore (store_ne_error h.fits (by rw [h.left_eq]; exact hleft.1) hleft.2.1)
  | nothing next => simp [hdemand] at hstep
  | complete => simp [hdemand] at hstep

theorem eq_of_advance_error (hvalid : c.Valid) (h : i.Tracks c d) (hroom : d.HasRoom c) {fault : Fault}
    (hadvance : d.part.advance (limits c) i = (.error fault, j)) : fault = .payloadTooLarge := by
  induction d using Draft.advance_induction (c := c) generalizing i with
  | next d e hstep ih =>
      obtain ⟨k, hk, htracks⟩ := h.step_of_next hstep
      rw [limits, Part.advance_of_some hk] at hadvance
      exact ih htracks (hroom.step hvalid hstep) hadvance
  | short d hstep =>
      obtain ⟨k, hk, -⟩ := h.step_of_short hstep
      rw [limits, Part.advance_of_none hk] at hadvance
      simp at hadvance
  | refused d hstep =>
      obtain ⟨refusal, k, hk, -⟩ := h.step_of_refused hstep
      rw [limits, Part.advance_of_error hk] at hadvance
      simp only [Prod.mk.injEq, Except.error.injEq] at hadvance
      rw [← hadvance.1]
      exact h.eq_of_step_error hvalid hroom hk

end Tracks

end Intake

namespace Reading

variable {i j : Intake}

/-- Whether a reading can go on from an intake: no more of a field was moved than the field has, and there is
room for what the part in hand keeps. -/
def Ready (c : Config) (i : Intake) : Reading → Prop
  | kind => i.Fits c ∧ i.scratch.filled = [] ∧ i.inbound.position = 0
  | length part =>
    (∃ code, Part.ofCode code = .ok part) ∧ i.Fits c ∧ i.scratch.filled = [] ∧
      i.inbound.position ≤ 2
  | body _ _ part => ∃ draft, draft.part = part ∧ i.Tracks c draft ∧ draft.HasRoom c

theorem ready_of_shows (hvalid : c.Valid) {bytes more : List UInt8} {reading : Reading}
    (h : reading.Shows c bytes i) {inbound : FieldStream} (hrefills : Refills more i.inbound inbound) :
    reading.Ready c ⟨inbound, i.scratch⟩ := by
  have hfits := hrefills.fits (fits_of_shows h)
  cases reading with
  | kind =>
      obtain ⟨-, -, hfilled, hzero, -⟩ := h
      exact ⟨hfits, hfilled, hrefills.position_eq.trans hzero⟩
  | length part =>
      obtain ⟨code, front, -, hcode, -, hfilled, hposition, -, hfront, -⟩ := h
      refine ⟨⟨code, hcode⟩, hfits, hfilled, ?_⟩
      show inbound.position ≤ 2
      rw [hrefills.position_eq, hposition]
      omega
  | body declared taken part =>
      obtain ⟨code, first, front, received, draft, -, hcode, -, -, -, hadvance, rfl, htracks,
        hrest⟩ := h
      have hfirst : Draft.HasRoom c ⟨first, [], received⟩ := Part.hasRoom_of_ofCode hcode
      have hroom : draft.HasRoom c := hfirst.advance hvalid hadvance
      exact ⟨draft.push more, rfl, hrefills.tracks htracks hrest, hroom⟩

/-- After a number the stream is between two fields, and a body begins. -/
theorem tracks_of_word (hfits : i.Fits c) (hfilled : i.scratch.filled = []) {width value : Nat}
    (hword : i.word width = (.ok (some value), j)) (part : Part) :
    j.Tracks c ⟨part, [], j.inbound.buffer.unconsumed⟩ := by
  have hj : (i.word width).2 = j := by rw [hword]
  have hposition := Intake.position_word_of_some hfits hword
  subst hj
  exact Intake.tracks_of_position_eq (Intake.fits_word hfits width) hfilled hposition rfl

theorem allInRange_lengthAccesses (hvalid : c.Valid) {code : UInt8} {part : Part}
    (hcode : Part.ofCode code = .ok part) (hfits : i.Fits c) (hfilled : i.scratch.filled = [])
    (hposition : i.inbound.position ≤ 2) : AllInRange (lengthAccesses (limits c) part i) := by
  rw [lengthAccesses]
  refine allInRange_append.mpr ⟨i.allInRange_wordAccesses hposition (by decide), ?_⟩
  split
  · rename_i hword
    exact (tracks_of_word hfits hfilled hword part).allInRange_accesses hvalid
      (Part.hasRoom_of_ofCode hcode)
  · exact allInRange_nil

theorem allInRange_kindAccesses (hvalid : c.Valid) (hfits : i.Fits c) (hfilled : i.scratch.filled = [])
    (hposition : i.inbound.position = 0) : AllInRange (kindAccesses (limits c) i) := by
  rw [kindAccesses]
  refine allInRange_append.mpr ⟨i.allInRange_wordAccesses (by omega) (by decide), ?_⟩
  split
  · rename_i j hword
    split
    · rename_i hcode
      have htracks := tracks_of_word hfits hfilled hword .frequency
      have hzero := Intake.position_word_of_some hfits hword
      exact allInRange_lengthAccesses hvalid hcode htracks.fits htracks.filled_eq (by omega)
    · exact allInRange_nil
  · exact allInRange_nil

theorem Ready.allInRange_accesses (hvalid : c.Valid) {reading : Reading} (h : reading.Ready c i) :
    AllInRange (reading.accesses (limits c) i) := by
  cases reading with
  | kind => exact allInRange_kindAccesses hvalid h.1 h.2.1 h.2.2
  | length part =>
      obtain ⟨⟨code, hcode⟩, hfits, hfilled, hposition⟩ := h
      exact allInRange_lengthAccesses hvalid hcode hfits hfilled hposition
  | body declared taken part =>
      obtain ⟨draft, rfl, htracks, hroom⟩ := h
      exact htracks.allInRange_accesses hvalid hroom

theorem ofRequest_of_resumeBody (hvalid : c.Valid) {d : Draft} (h : i.Tracks c d)
    (hroom : d.HasRoom c) {declared taken : Nat} {fault : Fault}
    (hresume : resumeBody (limits c) declared taken d.part i = (.error fault, j)) :
    fault.OfRequest := by
  unfold resumeBody at hresume
  split at hresume
  · dsimp only at hresume
    split at hresume
    · simp at hresume
    · simp only [Prod.mk.injEq, Except.error.injEq] at hresume
      exact hresume.1 ▸ trivial
  · dsimp only at hresume
    split at hresume
    · simp at hresume
    · simp only [Prod.mk.injEq, Except.error.injEq] at hresume
      exact hresume.1 ▸ trivial
  · rename_i hadvance
    simp only [Prod.mk.injEq, Except.error.injEq] at hresume
    rw [← hresume.1, h.eq_of_advance_error hvalid hroom hadvance]
    trivial

theorem ofRequest_of_resumeLength (hvalid : c.Valid) {code : UInt8} {part : Part}
    (hcode : Part.ofCode code = .ok part) (hfits : i.Fits c) (hfilled : i.scratch.filled = [])
    {fault : Fault} (hresume : resumeLength (limits c) part i = (.error fault, j)) :
    fault.OfRequest := by
  unfold resumeLength at hresume
  split at hresume
  · rename_i hword
    exact ofRequest_of_resumeBody hvalid (tracks_of_word hfits hfilled hword part)
      (Part.hasRoom_of_ofCode hcode) hresume
  · simp at hresume
  · rename_i hword
    exact absurd hword (Intake.word_ne_error hfits)

theorem ofRequest_of_ofCode {code : UInt8} {fault : Fault} (h : Part.ofCode code = .error fault) :
    fault.OfRequest := by
  rw [Part.ofCode] at h
  split at h
  · split at h
    · simp at h
    · simp only [Except.error.injEq] at h
      exact h ▸ trivial
  · rename_i hkind
    simp only [Except.error.injEq] at h
    subst h
    rw [Packet.Kind.ofCode] at hkind
    repeat' split at hkind
    all_goals simp only [Except.error.injEq, reduceCtorEq] at hkind
    exact hkind ▸ trivial

/-- A reading fails only if something is wrong with the request. -/
theorem Ready.ofRequest_of_resume (hvalid : c.Valid) {reading : Reading} (h : reading.Ready c i)
    {fault : Fault} (hresume : reading.resume (limits c) i = (.error fault, j)) :
    fault.OfRequest := by
  cases reading with
  | kind =>
      obtain ⟨hfits, hfilled, -⟩ := h
      simp only [resume] at hresume
      unfold resumeKind at hresume
      split at hresume
      · rename_i hword
        have htracks := tracks_of_word hfits hfilled hword .frequency
        split at hresume
        · rename_i hcode
          exact ofRequest_of_resumeLength hvalid hcode htracks.fits htracks.filled_eq hresume
        · rename_i hcode
          simp only [Prod.mk.injEq, Except.error.injEq] at hresume
          exact hresume.1 ▸ ofRequest_of_ofCode hcode
      · simp at hresume
      · rename_i hword
        exact absurd hword (Intake.word_ne_error hfits)
  | length part =>
      obtain ⟨⟨code, hcode⟩, hfits, hfilled, -⟩ := h
      exact ofRequest_of_resumeLength hvalid hcode hfits hfilled hresume
  | body declared taken part =>
      obtain ⟨draft, rfl, htracks, hroom⟩ := h
      exact ofRequest_of_resumeBody hvalid htracks hroom hresume

end Reading

end Request

end Infrared
