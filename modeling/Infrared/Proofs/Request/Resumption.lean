import Infrared.Proofs.Request.Tracking

namespace Infrared.Request

/-- The limits that a device with a configuration has. -/
def limits (c : Config) : Limits :=
  ⟨c.pulseWidth, c.nameLengthMax⟩

namespace Reading

/-- Whether a reading has come as far as the given bytes of a connection go, all of them taken in. -/
def Shows (c : Config) (bytes : List UInt8) (i : Intake) : Reading → Prop
  | kind =>
    bytes = [] ∧ i.Fits c ∧ i.scratch.filled = [] ∧ i.inbound.position = 0 ∧
      i.inbound.buffer.unconsumed = []
  | length part =>
    ∃ code front, bytes = code :: front ∧ Part.ofCode code = .ok part ∧ i.Fits c ∧
      i.scratch.filled = [] ∧ i.inbound.position = front.length ∧
      i.inbound.buffer.unconsumed = [] ∧ front.length < 2 ∧
      front <+: (Field.mk .fixed (i.inbound.held.take 2)).wire i.inbound.swapped
  | body declared taken part =>
    ∃ code first front received draft, bytes = code :: (front ++ received) ∧
      Part.ofCode code = .ok first ∧ front.length = 2 ∧
      declared = Field.number c.swapped front ∧ taken = received.length ∧
      (Draft.mk first [] received).advance c = some draft ∧ draft.part = part ∧
      i.Tracks c draft ∧ i.inbound.buffer.unconsumed = []

/-- Whether what a reading came to is what a verdict on the given bytes says. -/
def Settles (c : Config) (bytes : List UInt8) :
    Verdict → Except Fault (Reading ⊕ Request) × Intake → Prop
  | .waiting, (.ok (.inl reading), i) => reading.Shows c bytes i
  | .accepted request kept, (.ok (.inr result), i) =>
    result = request ∧ i.Fits c ∧ i.scratch.filled = kept
  | .refused, (.error _, i) => i.Fits c
  | _, _ => False

variable {c : Config} {i : Intake}

theorem fits_of_shows {bytes : List UInt8} {reading : Reading} (h : reading.Shows c bytes i) :
    i.Fits c := by
  cases reading with
  | kind => exact h.2.1
  | length part =>
      obtain ⟨_, _, _, _, hfits, _⟩ := h
      exact hfits
  | body declared taken part =>
      obtain ⟨_, _, _, _, _, _, _, _, _, _, _, _, htracks, _⟩ := h
      exact htracks.fits

theorem unconsumed_of_shows {bytes : List UInt8} {reading : Reading} (h : reading.Shows c bytes i) :
    i.inbound.buffer.unconsumed = [] := by
  cases reading with
  | kind => exact h.2.2.2.2
  | length part =>
      obtain ⟨_, _, _, _, _, _, _, hrest, _⟩ := h
      exact hrest
  | body declared taken part =>
      obtain ⟨_, _, _, _, _, _, _, _, _, _, _, _, _, hrest⟩ := h
      exact hrest

theorem settles_resumeBody (received : List UInt8) {code : UInt8} {first : Part}
    {front more : List UInt8} {draft : Draft} (hcode : Part.ofCode code = .ok first)
    (hfront : front.length = 2)
    (hadvance : (Draft.mk first [] (received ++ more)).advance c = draft.advance c)
    (htracks : i.Tracks c draft) (hpending : i.inbound.pending = more.length) :
    Settles c (code :: (front ++ (received ++ more)))
      (bodyVerdict c (Field.number c.swapped front) first (received ++ more))
      (resumeBody (limits c) (Field.number c.swapped front) received.length draft.part i) := by
  unfold resumeBody bodyVerdict
  rw [hadvance]
  cases hresult : draft.advance c with
  | none =>
      obtain ⟨fault, j, hj, hfits⟩ := htracks.advance_of_none hresult
      rw [limits, hj]
      exact hfits
  | some e =>
      obtain ⟨j, hj, htracks', hdone⟩ := htracks.advance_of_some hresult
      have hle : j.inbound.pending ≤ i.inbound.pending := by
        have hadvanced := draft.part.pending_advance_le (limits c) i
        rwa [limits, hj] at hadvanced
      rw [limits, hj]
      obtain ⟨part, kept, rest⟩ := e
      -- A complete body leaves in the stream what its draft leaves; any other leaves nothing.
      have hrest : ∀ request, part = .complete request → rest.length = j.inbound.pending := by
        rintro request rfl
        obtain ⟨taken, hrest, -, hnothing⟩ := htracks'.exists_taken
        have hempty : taken = [] := hnothing
        rw [hempty, List.nil_append] at hrest
        rw [show rest = j.inbound.buffer.unconsumed from hrest, Buffer.length_unconsumed]
        rfl
      have hopen : (∀ request, part ≠ .complete request) → j.inbound.pending = 0 := by
        intro hpart
        have hdemand : Draft.demand c ⟨part, kept, rest⟩ ≠ .complete := by
          rw [Ne, Draft.demand_eq_complete_iff]
          rintro ⟨request, h⟩
          exact hpart request h
        have hlength := congrArg List.length (hdone hdemand)
        rwa [Buffer.length_unconsumed] at hlength
      cases part with
      | complete request =>
          have hlength := hrest request rfl
          have htotal : received.length + (i.inbound.pending - j.inbound.pending) =
              (received ++ more).length - rest.length := by
            rw [List.length_append]
            omega
          dsimp only
          rw [htotal]
          split
          · exact ⟨rfl, htracks'.fits, htracks'.filled_eq⟩
          · exact htracks'.fits
      | _ =>
          have hlength := hopen (by simp)
          have htotal : received.length + (i.inbound.pending - j.inbound.pending) =
              (received ++ more).length := by
            rw [List.length_append]
            omega
          dsimp only
          rw [htotal]
          split
          · refine ⟨code, first, front, received ++ more, _, rfl, hcode, hfront, rfl, rfl,
              hadvance.trans hresult, rfl, htracks', hdone ?_⟩
            rw [Ne, Draft.demand_eq_complete_iff]
            simp
          · exact htracks'.fits

theorem settles_resumeLength {code : UInt8} {part : Part} {front : List UInt8}
    (hcode : Part.ofCode code = .ok part) (hfits : i.Fits c) (hfilled : i.scratch.filled = [])
    (hposition : i.inbound.position = front.length)
    (hbegin : front <+: (Field.mk .fixed (i.inbound.held.take 2)).wire i.inbound.swapped) :
    Settles c (code :: (front ++ i.inbound.buffer.unconsumed))
      (tailVerdict c part (front ++ i.inbound.buffer.unconsumed))
      (resumeLength (limits c) part i) := by
  have hwidth : 2 ≤ Field.Kind.fixed.limit := by decide
  unfold resumeLength tailVerdict
  rcases Nat.lt_or_ge (front ++ i.inbound.buffer.unconsumed).length 2 with hlt | hle
  · obtain ⟨hvalue, hposition', hrest, hbegin'⟩ :=
      Intake.word_of_lt hfits hposition hwidth hbegin hlt
    have hword : i.word 2 = (.ok none, (i.word 2).2) := Prod.ext hvalue rfl
    rw [if_pos hlt, hword]
    refine ⟨code, _, rfl, hcode, Intake.fits_word hfits 2, hfilled, hposition', hrest, hlt, ?_⟩
    rw [(Intake.fits_word hfits 2).swapped_eq, ← hfits.swapped_eq]
    exact hbegin'
  · obtain ⟨hvalue, hposition', hrest⟩ := Intake.word_of_le hfits hposition hwidth hbegin hle
    have hword : i.word 2 = (.ok (some (Field.number c.swapped
        ((front ++ i.inbound.buffer.unconsumed).take 2))), (i.word 2).2) := Prod.ext hvalue rfl
    have htracks : (i.word 2).2.Tracks c
        ⟨part, [], (front ++ i.inbound.buffer.unconsumed).drop 2⟩ :=
      Intake.tracks_of_position_eq (Intake.fits_word hfits 2) hfilled hposition' hrest.symm
    have hpending : (i.word 2).2.inbound.pending =
        ((front ++ i.inbound.buffer.unconsumed).drop 2).length := by
      rw [← hrest, Buffer.length_unconsumed]
      rfl
    have hsettles := settles_resumeBody [] hcode (List.length_take_of_le hle) rfl htracks
      hpending
    rw [if_neg (Nat.not_lt.mpr hle), hword]
    rw [List.nil_append, List.take_append_drop] at hsettles
    exact hsettles

theorem settles_resumeKind (hfits : i.Fits c) (hfilled : i.scratch.filled = [])
    (hposition : i.inbound.position = 0) :
    Settles c i.inbound.buffer.unconsumed (verdict c i.inbound.buffer.unconsumed)
      (resumeKind (limits c) i) := by
  have hwidth : 1 ≤ Field.Kind.fixed.limit := by decide
  have hnone : i.inbound.position = ([] : List UInt8).length := hposition
  unfold resumeKind
  cases hbytes : i.inbound.buffer.unconsumed with
  | nil =>
      obtain ⟨hvalue, hposition', hrest, -⟩ := Intake.word_of_lt hfits hnone hwidth
        List.nil_prefix (by simp [hbytes])
      have hword : i.word 1 = (.ok none, (i.word 1).2) := Prod.ext hvalue rfl
      rw [hword]
      refine ⟨rfl, Intake.fits_word hfits 1, hfilled, ?_, hrest⟩
      rw [hposition', hbytes]
      rfl
  | cons code front =>
      obtain ⟨hvalue, hposition', hrest⟩ := Intake.word_of_le hfits hnone hwidth
        List.nil_prefix (by simp [hbytes])
      rw [hbytes, List.nil_append] at hvalue hrest
      have hnumber : Field.number c.swapped ([code].take 1) = code.toNat :=
        Field.number_singleton c.swapped code
      have hword : i.word 1 = (.ok (some code.toNat), (i.word 1).2) :=
        Prod.ext (hvalue.trans (by rw [← hnumber]; rfl)) rfl
      rw [hword]
      dsimp only
      rw [UInt8.ofNat_toNat, verdict]
      cases hcode : Part.ofCode code with
      | error fault => exact Intake.fits_word hfits 1
      | ok part =>
          have hnone' : (i.word 1).2.inbound.position = ([] : List UInt8).length := hposition'
          have hsettles := settles_resumeLength hcode (Intake.fits_word hfits 1) hfilled hnone'
            List.nil_prefix
          rw [hrest] at hsettles
          exact hsettles

/-- Whether an inbound stream is another one, but has just the given bytes to be consumed. -/
structure Refills (bytes : List UInt8) (s t : FieldStream) : Prop where
  side_eq : t.side = s.side
  swapped_eq : t.swapped = s.swapped
  capacity_eq : t.capacity = s.capacity
  held_eq : t.held = s.held
  position_eq : t.position = s.position
  unconsumed_eq : t.buffer.unconsumed = bytes

theorem Refills.fits {more : List UInt8} {inbound : FieldStream} (h : Refills more i.inbound inbound)
    (hfits : i.Fits c) : Intake.Fits c ⟨inbound, i.scratch⟩ :=
  ⟨h.side_eq.trans hfits.side_eq, h.swapped_eq.trans hfits.swapped_eq,
    h.capacity_eq.trans hfits.capacity_eq, hfits.scratch_eq⟩

theorem feed_of_shows {bytes : List UInt8} {reading : Reading} (h : reading.Shows c bytes i)
    {more : List UInt8} (hlength : more.length ≤ c.receiveBufferLength) :
    ∃ inbound, i.inbound.feed more = (.ok (), inbound) ∧ Refills more i.inbound inbound := by
  have hfits := fits_of_shows h
  have hrest := unconsumed_of_shows h
  have hpending : i.inbound.pending = 0 := by
    rw [FieldStream.pending, ← Buffer.length_unconsumed, hrest]
    rfl
  obtain ⟨buffer, hfeed, hcapacity, hunconsumed⟩ :=
    FieldStream.exists_feed_of_le hfits.side_eq (by rw [hpending, hfits.capacity_eq]; exact hlength)
  refine ⟨_, hfeed, rfl, rfl, hcapacity, rfl, rfl, ?_⟩
  rw [hunconsumed, hrest, List.nil_append]

theorem feed_of_length_lt {bytes : List UInt8} {reading : Reading} (h : reading.Shows c bytes i)
    {more : List UInt8} (hlength : c.receiveBufferLength < more.length) :
    ∃ fault inbound, i.inbound.feed more = (.error fault, inbound) ∧
      Intake.Fits c ⟨inbound, i.scratch⟩ := by
  have hfits := fits_of_shows h
  have hlong : i.inbound.capacity < more.length + i.inbound.pending := by
    rw [hfits.capacity_eq]
    omega
  obtain ⟨buffer, hfeed, hcapacity, -⟩ := FieldStream.exists_feed_of_lt hfits.side_eq hlong
  exact ⟨_, _, hfeed, hfits.side_eq, hfits.swapped_eq, hcapacity.trans hfits.capacity_eq,
    hfits.scratch_eq⟩

/-- An intake that tracks a body goes on to track it with the bytes that arrive. -/
theorem Refills.tracks {more : List UInt8} {inbound : FieldStream} {d : Draft}
    (h : Refills more i.inbound inbound) (htracks : i.Tracks c d)
    (hrest : i.inbound.buffer.unconsumed = []) : Intake.Tracks c ⟨inbound, i.scratch⟩ (d.push more) := by
  obtain ⟨taken, hdraft, hposition, hholds⟩ := htracks.exists_taken
  rw [hrest, List.append_nil] at hdraft
  refine ⟨h.fits htracks.fits, htracks.filled_eq, taken, ?_, h.position_eq.trans hposition, ?_⟩
  · rw [← hdraft, h.unconsumed_eq]
    rfl
  · rw [Draft.demand_push]
    cases hdemand : d.demand c with
    | word width next =>
        rw [hdemand] at hholds
        simp only [Intake.Holds, h.held_eq, h.swapped_eq]
        exact hholds
    | store kind length next =>
        rw [hdemand] at hholds
        simp only [Intake.Holds, h.swapped_eq]
        exact hholds
    | nothing next => rwa [hdemand] at hholds
    | complete => rwa [hdemand] at hholds

/-- However the bytes of a connection were cut, the reading comes to what all of them come to. -/
theorem settles_resume {bytes : List UInt8} {reading : Reading} (h : reading.Shows c bytes i)
    {more : List UInt8} {inbound : FieldStream} (hrefills : Refills more i.inbound inbound) :
    Settles c (bytes ++ more) (verdict c (bytes ++ more))
      (reading.resume (limits c) ⟨inbound, i.scratch⟩) := by
  have hfits := hrefills.fits (fits_of_shows h)
  have hmore := hrefills.unconsumed_eq
  cases reading with
  | kind =>
      obtain ⟨rfl, -, hfilled, hzero, -⟩ := h
      rw [List.nil_append, ← hmore]
      exact settles_resumeKind hfits hfilled (hrefills.position_eq.trans hzero)
  | length part =>
      obtain ⟨code, front, rfl, hcode, -, hfilled, htaken, -, -, hbegin⟩ := h
      rw [← hrefills.held_eq, ← hrefills.swapped_eq] at hbegin
      have hsettles := settles_resumeLength (i := ⟨inbound, i.scratch⟩) hcode hfits hfilled
        (hrefills.position_eq.trans htaken) hbegin
      rw [List.cons_append, verdict, hcode, ← hmore]
      exact hsettles
  | body declared taken part =>
      obtain ⟨code, first, front, received, draft, rfl, hcode, hfront, rfl, rfl, hadvance, rfl,
        htracks, hrest⟩ := h
      -- Decoding the whole body again would come to where the draft goes on from.
      have hpush := Draft.advance_push c ⟨first, [], received⟩ more
      rw [hadvance, Option.bind_some] at hpush
      have hpending : inbound.pending = more.length := by
        rw [← hmore, Buffer.length_unconsumed]
        rfl
      have hsettles := settles_resumeBody received hcode hfront hpush
        (hrefills.tracks htracks hrest) hpending
      have hlong : ¬(front ++ (received ++ more)).length < 2 := by
        rw [List.length_append]
        omega
      rw [List.cons_append, List.append_assoc, verdict, hcode]
      dsimp only
      rw [tailVerdict, if_neg hlong, List.take_left' hfront, List.drop_left' hfront]
      exact hsettles

end Reading

end Infrared.Request
