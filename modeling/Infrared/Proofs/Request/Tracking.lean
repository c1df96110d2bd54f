import Infrared.Proofs.FieldPieces
import Infrared.Proofs.Request.Verdict

namespace Infrared.Request

/-- An intake as a device with the configuration has it. -/
structure Intake.Fits (c : Config) (i : Intake) : Prop where
  side_eq : i.inbound.side = .reader
  swapped_eq : i.inbound.swapped = c.swapped
  capacity_eq : i.inbound.capacity = c.receiveBufferLength
  scratch_eq : i.scratch.capacity = c.scratchLength

/-- Whether the bytes of a field under way are where its next piece is added to them. -/
def Intake.Holds (i : Intake) (taken : List UInt8) : Demand → Prop
  | .word width _ =>
    width ≤ Field.Kind.fixed.limit ∧
      taken <+: (Field.mk .fixed (i.inbound.held.take width)).wire i.inbound.swapped
  | .store kind length _ =>
    taken <+: (Field.mk kind (i.scratch.spareFront length)).wire i.inbound.swapped
  | .nothing _ => taken = []
  | .complete => taken = []

/-- Whether an intake has what a draft says. -/
structure Intake.Tracks (c : Config) (i : Intake) (d : Draft) : Prop where
  fits : i.Fits c
  filled_eq : i.scratch.filled = d.kept
  exists_taken : ∃ taken, d.rest = taken ++ i.inbound.buffer.unconsumed ∧
    i.inbound.position = taken.length ∧ i.Holds taken (d.demand c)

theorem Part.width_le_of_demand {l : Limits} {capacity room : Nat} {part : Part} {width : Nat}
    {next : Nat → Except Fault Part} (h : part.demand l capacity room = .word width next) :
    width ≤ Field.Kind.fixed.limit := by
  cases part with
  | pulses carrier left => cases left <;> simp [demand] at h
  | _ =>
      simp only [demand, Demand.word.injEq, reduceCtorEq] at h
      try simp [← h.1, Field.Kind.limit]

/-- Between two fields there is nothing to be held. -/
theorem Intake.tracks_of_position_eq {c : Config} {i : Intake} {d : Draft} (hfits : i.Fits c)
    (hfilled : i.scratch.filled = d.kept) (hposition : i.inbound.position = 0)
    (hrest : d.rest = i.inbound.buffer.unconsumed) : i.Tracks c d := by
  refine ⟨hfits, hfilled, [], by simpa using hrest, hposition, ?_⟩
  cases hdemand : d.demand c with
  | word width next => exact ⟨Part.width_le_of_demand hdemand, List.nil_prefix⟩
  | store kind length next => exact List.nil_prefix
  | nothing next => rfl
  | complete => rfl

namespace Intake

variable {c : Config} {i : Intake} {taken : List UInt8}

@[simp] theorem scratch_word (i : Intake) (width : Nat) : (i.word width).2.scratch = i.scratch := rfl

theorem word_eq (i : Intake) (width : Nat) :
    i.word width = ((i.inbound.readWord width).1, ⟨(i.inbound.readWord width).2, i.scratch⟩) := rfl

theorem fits_word (h : i.Fits c) (width : Nat) : (i.word width).2.Fits c := by
  rw [word_eq, FieldStream.readWord_eq h.side_eq]
  exact ⟨h.side_eq, h.swapped_eq, h.capacity_eq, h.scratch_eq⟩

theorem word_of_le (h : i.Fits c) {width : Nat} (hposition : i.inbound.position = taken.length)
    (hwidth : width ≤ Field.Kind.fixed.limit)
    (hbegin : taken <+: (Field.mk .fixed (i.inbound.held.take width)).wire i.inbound.swapped)
    (hle : width ≤ (taken ++ i.inbound.buffer.unconsumed).length) :
    (i.word width).1 = .ok (some (Field.number c.swapped
        ((taken ++ i.inbound.buffer.unconsumed).take width))) ∧
      (i.word width).2.inbound.position = 0 ∧
      (i.word width).2.inbound.buffer.unconsumed =
        (taken ++ i.inbound.buffer.unconsumed).drop width := by
  rw [word_eq, ← h.swapped_eq]
  exact FieldStream.readWord_of_le h.side_eq hposition hwidth hbegin hle

theorem word_of_lt (h : i.Fits c) {width : Nat} (hposition : i.inbound.position = taken.length)
    (hwidth : width ≤ Field.Kind.fixed.limit)
    (hbegin : taken <+: (Field.mk .fixed (i.inbound.held.take width)).wire i.inbound.swapped)
    (hlt : (taken ++ i.inbound.buffer.unconsumed).length < width) :
    (i.word width).1 = .ok none ∧
      (i.word width).2.inbound.position = (taken ++ i.inbound.buffer.unconsumed).length ∧
      (i.word width).2.inbound.buffer.unconsumed = [] ∧
      taken ++ i.inbound.buffer.unconsumed <+:
        (Field.mk .fixed ((i.word width).2.inbound.held.take width)).wire i.inbound.swapped := by
  rw [word_eq]
  exact FieldStream.readWord_of_lt h.side_eq hposition hwidth hbegin hlt

theorem store_of_refused {kind : Field.Kind} {length : Nat} (h : i.Fits c)
    (hrefused : i.scratch.left < length ∨ kind.limit < length) :
    ∃ fault, (i.store kind length).1 = .error fault := by
  simp only [store]
  split
  · exact ⟨_, rfl⟩
  · rename_i hroom
    have hlength := i.scratch.length_spareFront (Nat.le_of_not_lt hroom)
    rw [FieldStream.read, if_neg (by simp [h.side_eq]), if_pos (by dsimp only; omega)]
    exact ⟨_, rfl⟩

theorem store_eq {kind : Field.Kind} {length : Nat} (h : i.Fits c)
    (hroom : length ≤ i.scratch.left) (hlimit : length ≤ kind.limit) :
    i.store kind length =
      if (i.inbound.take ⟨kind, i.scratch.spareFront length⟩).1 then
        (.ok (some ⟨i.scratch.size, length⟩),
          ⟨(i.inbound.take ⟨kind, i.scratch.spareFront length⟩).2.2,
            i.scratch.append (i.inbound.take ⟨kind, i.scratch.spareFront length⟩).2.1.bytes⟩)
      else
        (.ok none,
          ⟨(i.inbound.take ⟨kind, i.scratch.spareFront length⟩).2.2,
            i.scratch.writeSpare (i.inbound.take ⟨kind, i.scratch.spareFront length⟩).2.1.bytes⟩) := by
  have hlength := i.scratch.length_spareFront hroom
  simp only [store]
  rw [if_neg (by omega), FieldStream.read_of_length_le h.side_eq (by rw [hlength]; exact hlimit)]
  cases hdone : (i.inbound.take ⟨kind, i.scratch.spareFront length⟩).1
  · rfl
  · rfl

theorem store_of_le {kind : Field.Kind} {length : Nat} (h : i.Fits c)
    (hroom : length ≤ i.scratch.left) (hlimit : length ≤ kind.limit)
    (hposition : i.inbound.position = taken.length)
    (hbegin : taken <+: (Field.mk kind (i.scratch.spareFront length)).wire i.inbound.swapped)
    (hle : length ≤ (taken ++ i.inbound.buffer.unconsumed).length) :
    (i.store kind length).1 = .ok (some ⟨i.scratch.filled.length, length⟩) ∧
      (i.store kind length).2.scratch.filled = i.scratch.filled ++
        Field.orient c.swapped kind ((taken ++ i.inbound.buffer.unconsumed).take length) ∧
      (i.store kind length).2.inbound.position = 0 ∧
      (i.store kind length).2.inbound.buffer.unconsumed =
        (taken ++ i.inbound.buffer.unconsumed).drop length := by
  have hlength := i.scratch.length_spareFront hroom
  obtain ⟨hdone, hfield, hposition', hrest⟩ := FieldStream.take_eq_of_le h.side_eq hposition hbegin
    (by rw [hlength]; exact hle)
  rw [hlength] at hfield hrest
  rw [store_eq h hroom hlimit, if_pos hdone, hfield, ← h.swapped_eq]
  refine ⟨by rw [Buffer.length_filled], ?_, hposition', hrest⟩
  have hmoved : ((taken ++ i.inbound.buffer.unconsumed).take length).length = length :=
    List.length_take_of_le hle
  exact Buffer.filled_append i.scratch (by rw [Field.length_orient, hmoved]; exact hroom)

theorem store_of_lt {kind : Field.Kind} {length : Nat} (h : i.Fits c)
    (hroom : length ≤ i.scratch.left) (hlimit : length ≤ kind.limit)
    (hposition : i.inbound.position = taken.length)
    (hbegin : taken <+: (Field.mk kind (i.scratch.spareFront length)).wire i.inbound.swapped)
    (hlt : (taken ++ i.inbound.buffer.unconsumed).length < length) :
    (i.store kind length).1 = .ok none ∧
      (i.store kind length).2.scratch.filled = i.scratch.filled ∧
      (i.store kind length).2.inbound.position = (taken ++ i.inbound.buffer.unconsumed).length ∧
      (i.store kind length).2.inbound.buffer.unconsumed = [] ∧
      taken ++ i.inbound.buffer.unconsumed <+:
        (Field.mk kind ((i.store kind length).2.scratch.spareFront length)).wire
          i.inbound.swapped := by
  have hlength := i.scratch.length_spareFront hroom
  obtain ⟨hdone, hfield, hposition', hrest⟩ := FieldStream.take_eq_of_lt h.side_eq hposition hbegin
    (by rw [hlength]; exact hlt)
  have hbytes : (i.inbound.take ⟨kind, i.scratch.spareFront length⟩).2.1.bytes.length = length :=
    (FieldStream.length_fill _ _ _ _).trans hlength
  have hfront : (i.scratch.writeSpare
      (i.inbound.take ⟨kind, i.scratch.spareFront length⟩).2.1.bytes).spareFront length =
      (i.inbound.take ⟨kind, i.scratch.spareFront length⟩).2.1.bytes := by
    rw [Buffer.spareFront_eq_take, Buffer.spare_writeSpare _ (by omega), List.take_left' hbytes]
  rw [store_eq h hroom hlimit, if_neg (by simp [hdone])]
  refine ⟨rfl, Buffer.filled_writeSpare i.scratch (by omega), hposition', hrest, ?_⟩
  dsimp only
  rw [hfront]
  exact hfield

theorem fits_store {kind : Field.Kind} {length : Nat} (h : i.Fits c) :
    (i.store kind length).2.Fits c := by
  rcases Nat.lt_or_ge i.scratch.left length with hroom | hroom
  · simp only [store]
    rw [if_pos hroom]
    exact h
  · rcases Nat.lt_or_ge kind.limit length with hlimit | hlimit
    · have hlength : (i.scratch.spareFront length).length = length := by
        rw [Buffer.spareFront_eq_take, List.length_take, Buffer.length_spare]
        omega
      simp only [store]
      rw [if_neg (by omega), FieldStream.read, if_neg (by simp [h.side_eq]),
        if_pos (by dsimp only; omega)]
      exact h
    · rw [store_eq h hroom hlimit]
      split
      · exact ⟨h.side_eq, h.swapped_eq, h.capacity_eq, (Buffer.capacity_append _ _).trans h.scratch_eq⟩
      · exact ⟨h.side_eq, h.swapped_eq, h.capacity_eq, h.scratch_eq⟩

theorem pending_store_le (i : Intake) (kind : Field.Kind) (length : Nat) :
    (i.store kind length).2.inbound.pending ≤ i.inbound.pending := by
  have hread := i.inbound.pending_read_le ⟨kind, i.scratch.spareFront length⟩
  simp only [store]
  split
  · exact Nat.le_refl _
  · split
    · rename_i hmoved
      rwa [hmoved] at hread
    · rename_i hmoved
      rwa [hmoved] at hread
    · rename_i hmoved
      rwa [hmoved] at hread

end Intake

namespace Part

theorem afterWord_eq (i : Intake) (width : Nat) (next : Nat → Buffer → Except Fault Part) :
    afterWord i width next = afterWord i width fun value _ => next value i.scratch := by
  have hscratch := i.scratch_word width
  unfold afterWord
  split
  · rename_i value j hword
    rw [hword] at hscratch
    rw [hscratch]
  · rfl
  · rfl

theorem step_eq (l : Limits) (part : Part) (i : Intake) :
    part.step l i =
      match part.demand l i.scratch.capacity i.scratch.left with
      | .word width next => afterWord i width fun value _ => next value
      | .store kind length next => afterStore i kind length next
      | .nothing next => (.ok (some next), i)
      | .complete => (.ok none, i) := by
  cases part with
  | pulses carrier left =>
      cases left with
      | zero => rfl
      | succ left => rfl
  | count carrier =>
      rw [step, afterWord_eq]
      rfl
  | nameLength =>
      rw [step, afterWord_eq]
      rfl
  | ssidLength nameSpan =>
      rw [step, afterWord_eq]
      rfl
  | passwordLength nameSpan ssidSpan =>
      rw [step, afterWord_eq]
      rfl
  | _ => rfl

theorem pending_step_le (l : Limits) (part : Part) (i : Intake) :
    (part.step l i).2.inbound.pending ≤ i.inbound.pending := by
  rw [step_eq]
  split
  · rename_i width next _
    have hword : (i.word width).2.inbound.pending ≤ i.inbound.pending := i.inbound.pending_readWord_le width
    rw [afterWord]
    split
    · rename_i hmoved
      rw [hmoved] at hword
      split
      · exact hword
      · exact hword
    · rename_i hmoved
      rwa [hmoved] at hword
    · rename_i hmoved
      rwa [hmoved] at hword
  · rename_i kind length next _
    have hstore := i.pending_store_le kind length
    rw [afterStore]
    split
    · rename_i hmoved
      rwa [hmoved] at hstore
    · rename_i hmoved
      rwa [hmoved] at hstore
    · rename_i hmoved
      rwa [hmoved] at hstore
  · exact Nat.le_refl _
  · exact Nat.le_refl _

theorem pending_advance_le (l : Limits) (part : Part) (i : Intake) :
    (part.advance l i).2.inbound.pending ≤ i.inbound.pending := by
  induction hn : part.remaining using Nat.strongRecOn generalizing part i with
  | ind n ih =>
      have hstep := part.pending_step_le l i
      cases hmoved : part.step l i with
      | mk result j =>
          rw [hmoved] at hstep
          cases result with
          | error fault => rwa [advance_of_error hmoved]
          | ok next =>
              cases next with
              | none => rwa [advance_of_none hmoved]
              | some next =>
                  rw [advance_of_some hmoved]
                  exact Nat.le_trans (ih _ (hn ▸ remaining_lt_of_step hmoved) next j rfl) hstep

end Part

namespace Intake

variable {c : Config} {i : Intake} {d e : Draft}

theorem Tracks.left_eq (h : i.Tracks c d) : i.scratch.left = c.scratchLength - d.kept.length := by
  have hsum := i.scratch.size_add_left
  rw [← Buffer.length_filled, h.filled_eq, h.fits.scratch_eq] at hsum
  omega

theorem Tracks.step_eq (h : i.Tracks c d) :
    d.part.step ⟨c.pulseWidth, c.nameLengthMax⟩ i =
      match d.demand c with
      | .word width next => Part.afterWord i width fun value _ => next value
      | .store kind length next => Part.afterStore i kind length next
      | .nothing next => (.ok (some next), i)
      | .complete => (.ok none, i) := by
  rw [Part.step_eq, h.left_eq, h.fits.scratch_eq]
  rfl

theorem Tracks.word_of_le (h : i.Tracks c d) {width : Nat} {next : Nat → Except Fault Part}
    (hdemand : d.demand c = .word width next) (hlength : width ≤ d.rest.length) :
    i.word width = (.ok (some (d.value c width)), (i.word width).2) ∧
      ∀ part, (i.word width).2.Tracks c ⟨part, d.kept, d.rest.drop width⟩ := by
  obtain ⟨taken, hrest, hposition, hholds⟩ := h.exists_taken
  rw [hdemand] at hholds
  rw [hrest] at hlength
  obtain ⟨hvalue, hposition', hrest'⟩ :=
    Intake.word_of_le h.fits hposition hholds.1 hholds.2 hlength
  constructor
  · rw [Draft.value, hrest]
    exact Prod.ext hvalue rfl
  · intro part
    exact tracks_of_position_eq (fits_word h.fits width) h.filled_eq hposition'
      (by rw [hrest', ← hrest])

theorem Tracks.word_of_lt (h : i.Tracks c d) {width : Nat} {next : Nat → Except Fault Part}
    (hdemand : d.demand c = .word width next) (hlength : d.rest.length < width) :
    i.word width = (.ok none, (i.word width).2) ∧ (i.word width).2.Tracks c d ∧
      (i.word width).2.inbound.buffer.unconsumed = [] := by
  obtain ⟨taken, hrest, hposition, hholds⟩ := h.exists_taken
  rw [hdemand] at hholds
  rw [hrest] at hlength
  obtain ⟨hvalue, hposition', hrest', hbegin⟩ :=
    Intake.word_of_lt h.fits hposition hholds.1 hholds.2 hlength
  refine ⟨Prod.ext hvalue rfl, ?_, hrest'⟩
  refine ⟨fits_word h.fits width, h.filled_eq, d.rest, by rw [hrest', List.append_nil],
    by rw [hposition', ← hrest], ?_⟩
  rw [hdemand, hrest]
  refine ⟨hholds.1, ?_⟩
  rw [(fits_word h.fits width).swapped_eq, ← h.fits.swapped_eq]
  exact hbegin

theorem Tracks.store_of_le (h : i.Tracks c d) {kind : Field.Kind} {length : Nat}
    {next : Span → Part} (hdemand : d.demand c = .store kind length next)
    (hroom : length ≤ i.scratch.left) (hlimit : length ≤ kind.limit)
    (hlength : length ≤ d.rest.length) :
    i.store kind length = (.ok (some ⟨d.kept.length, length⟩), (i.store kind length).2) ∧
      ∀ part, (i.store kind length).2.Tracks c
        ⟨part, d.kept ++ Field.orient c.swapped kind (d.rest.take length), d.rest.drop length⟩ := by
  obtain ⟨taken, hrest, hposition, hholds⟩ := h.exists_taken
  rw [hdemand] at hholds
  rw [hrest] at hlength
  obtain ⟨hspan, hfilled, hposition', hrest'⟩ :=
    Intake.store_of_le h.fits hroom hlimit hposition hholds hlength
  constructor
  · rw [← h.filled_eq]
    exact Prod.ext hspan rfl
  · intro part
    refine tracks_of_position_eq (fits_store h.fits) ?_ hposition' (by rw [hrest', ← hrest])
    rw [hfilled, ← hrest, h.filled_eq]

theorem Tracks.store_of_lt (h : i.Tracks c d) {kind : Field.Kind} {length : Nat}
    {next : Span → Part} (hdemand : d.demand c = .store kind length next)
    (hroom : length ≤ i.scratch.left) (hlimit : length ≤ kind.limit)
    (hlength : d.rest.length < length) :
    i.store kind length = (.ok none, (i.store kind length).2) ∧
      (i.store kind length).2.Tracks c d ∧
      (i.store kind length).2.inbound.buffer.unconsumed = [] := by
  obtain ⟨taken, hrest, hposition, hholds⟩ := h.exists_taken
  rw [hdemand] at hholds
  rw [hrest] at hlength
  obtain ⟨hspan, hfilled, hposition', hrest', hbegin⟩ :=
    Intake.store_of_lt h.fits hroom hlimit hposition hholds hlength
  refine ⟨Prod.ext hspan rfl, ?_, hrest'⟩
  refine ⟨fits_store h.fits, hfilled.trans h.filled_eq, d.rest,
    by rw [hrest', List.append_nil], by rw [hposition', ← hrest], ?_⟩
  rw [hdemand, hrest]
  show _ <+: _
  rw [(fits_store h.fits).swapped_eq, ← h.fits.swapped_eq]
  exact hbegin

theorem Tracks.step_of_next (h : i.Tracks c d) (hstep : d.step c = .next e) :
    ∃ j, d.part.step ⟨c.pulseWidth, c.nameLengthMax⟩ i = (.ok (some e.part), j) ∧ j.Tracks c e := by
  rw [h.step_eq]
  unfold Draft.step at hstep
  cases hdemand : d.demand c with
  | word width next =>
      rw [hdemand] at hstep
      dsimp only at hstep ⊢
      split at hstep
      · simp at hstep
      · rename_i hlength
        obtain ⟨hword, htracks⟩ := h.word_of_le hdemand (Nat.le_of_not_lt hlength)
        split at hstep
        · rename_i part hnext
          simp only [Draft.Step.next.injEq] at hstep
          subst hstep
          refine ⟨(i.word width).2, ?_, htracks part⟩
          rw [Part.afterWord, hword]
          dsimp only
          rw [hnext]
        · simp at hstep
  | store kind length next =>
      rw [hdemand] at hstep
      dsimp only at hstep ⊢
      split at hstep
      · simp at hstep
      · rename_i hroom
        rw [← h.left_eq, not_or, Nat.not_lt, Nat.not_lt] at hroom
        split at hstep
        · simp at hstep
        · rename_i hlength
          simp only [Draft.Step.next.injEq] at hstep
          subst hstep
          obtain ⟨hstore, htracks⟩ :=
            h.store_of_le hdemand hroom.1 hroom.2 (Nat.le_of_not_lt hlength)
          refine ⟨(i.store kind length).2, ?_, htracks _⟩
          rw [Part.afterStore, hstore]
  | nothing next =>
      obtain ⟨taken, hrest, hposition, hholds⟩ := h.exists_taken
      rw [hdemand] at hstep hholds
      simp only [Draft.Step.next.injEq] at hstep
      subst hstep
      have htaken : taken = [] := hholds
      subst htaken
      exact ⟨i, rfl, tracks_of_position_eq h.fits h.filled_eq hposition hrest⟩
  | complete => simp [hdemand] at hstep

theorem Tracks.step_of_short (h : i.Tracks c d) (hstep : d.step c = .short) :
    ∃ j, d.part.step ⟨c.pulseWidth, c.nameLengthMax⟩ i = (.ok none, j) ∧ j.Tracks c d ∧
      (d.demand c ≠ .complete → j.inbound.buffer.unconsumed = []) := by
  rw [h.step_eq]
  unfold Draft.step at hstep
  cases hdemand : d.demand c with
  | word width next =>
      rw [hdemand] at hstep
      dsimp only at hstep ⊢
      split at hstep
      · rename_i hlength
        obtain ⟨hword, htracks, hrest⟩ := h.word_of_lt hdemand hlength
        exact ⟨(i.word width).2, by rw [Part.afterWord, hword], htracks, fun _ => hrest⟩
      · split at hstep
        · simp at hstep
        · simp at hstep
  | store kind length next =>
      rw [hdemand] at hstep
      dsimp only at hstep ⊢
      split at hstep
      · simp at hstep
      · rename_i hroom
        rw [← h.left_eq, not_or, Nat.not_lt, Nat.not_lt] at hroom
        split at hstep
        · rename_i hlength
          obtain ⟨hstore, htracks, hrest⟩ := h.store_of_lt hdemand hroom.1 hroom.2 hlength
          exact ⟨(i.store kind length).2, by rw [Part.afterStore, hstore], htracks, fun _ => hrest⟩
        · simp at hstep
  | nothing next => simp [hdemand] at hstep
  | complete => exact ⟨i, rfl, h, by simp⟩

theorem Tracks.step_of_refused (h : i.Tracks c d) (hstep : d.step c = .refused) :
    ∃ fault j, d.part.step ⟨c.pulseWidth, c.nameLengthMax⟩ i = (.error fault, j) ∧ j.Fits c := by
  rw [h.step_eq]
  unfold Draft.step at hstep
  cases hdemand : d.demand c with
  | word width next =>
      rw [hdemand] at hstep
      dsimp only at hstep ⊢
      split at hstep
      · simp at hstep
      · rename_i hlength
        split at hstep
        · simp at hstep
        · rename_i fault hnext
          obtain ⟨hword, -⟩ := h.word_of_le hdemand (Nat.le_of_not_lt hlength)
          refine ⟨fault, (i.word width).2, ?_, fits_word h.fits width⟩
          rw [Part.afterWord, hword]
          dsimp only
          rw [hnext]
  | store kind length next =>
      rw [hdemand] at hstep
      dsimp only at hstep ⊢
      split at hstep
      · rename_i hrefused
        rw [← h.left_eq] at hrefused
        obtain ⟨fault, hfault⟩ := store_of_refused h.fits hrefused
        have hstore : i.store kind length = (.error fault, (i.store kind length).2) :=
          Prod.ext hfault rfl
        exact ⟨fault, (i.store kind length).2, by rw [Part.afterStore, hstore], fits_store h.fits⟩
      · split at hstep
        · simp at hstep
        · simp at hstep
  | nothing next => simp [hdemand] at hstep
  | complete => simp [hdemand] at hstep

end Intake

namespace Intake

variable {c : Config} {i : Intake} {d e : Draft}

/-- Reading from an intake decodes the draft that it tracks. -/
theorem Tracks.advance_of_some (h : i.Tracks c d) (hadvance : d.advance c = some e) :
    ∃ j, d.part.advance ⟨c.pulseWidth, c.nameLengthMax⟩ i = (.ok e.part, j) ∧ j.Tracks c e ∧
      (e.demand c ≠ .complete → j.inbound.buffer.unconsumed = []) := by
  induction d using Draft.advance_induction (c := c) generalizing i with
  | next d f hstep ih =>
      obtain ⟨j, hj, htracks⟩ := h.step_of_next hstep
      obtain ⟨k, hk, hresult⟩ := ih htracks (by rwa [Draft.advance_of_next hstep] at hadvance)
      exact ⟨k, by rw [Part.advance_of_some hj, hk], hresult⟩
  | short d hstep =>
      rw [Draft.advance_of_short hstep, Option.some.injEq] at hadvance
      subst hadvance
      obtain ⟨j, hj, hresult⟩ := h.step_of_short hstep
      exact ⟨j, Part.advance_of_none hj, hresult⟩
  | refused d hstep => simp [Draft.advance_of_refused hstep] at hadvance

theorem Tracks.advance_of_none (h : i.Tracks c d) (hadvance : d.advance c = none) :
    ∃ fault j, d.part.advance ⟨c.pulseWidth, c.nameLengthMax⟩ i = (.error fault, j) ∧
      j.Fits c := by
  induction d using Draft.advance_induction (c := c) generalizing i with
  | next d f hstep ih =>
      obtain ⟨j, hj, htracks⟩ := h.step_of_next hstep
      obtain ⟨fault, k, hk, hfits⟩ :=
        ih htracks (by rwa [Draft.advance_of_next hstep] at hadvance)
      exact ⟨fault, k, by rw [Part.advance_of_some hj, hk], hfits⟩
  | short d hstep => simp [Draft.advance_of_short hstep] at hadvance
  | refused d hstep =>
      obtain ⟨fault, j, hj, hfits⟩ := h.step_of_refused hstep
      exact ⟨fault, j, Part.advance_of_error hj, hfits⟩

end Intake

end Infrared.Request
