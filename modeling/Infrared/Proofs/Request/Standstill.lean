import Infrared.Proofs.FieldPieces
import Infrared.Request.Reading

namespace Infrared

namespace FieldStream

/-- Whether a field of the given length has to wait for bytes. -/
structure Lacks (s : FieldStream) (length : Nat) : Prop where
  side_eq : s.side = .reader
  pending_eq : s.pending = 0
  position_lt : s.position < length

theorem Lacks.withBuffer {s : FieldStream} {length : Nat} (h : s.Lacks length) {buffer : Buffer}
    (hbuffer : buffer.pending = 0) : { s with buffer := buffer }.Lacks length :=
  ⟨h.side_eq, hbuffer, h.position_lt⟩

theorem Lacks.take_eq {s : FieldStream} {dest : Field} (h : s.Lacks dest.bytes.length) :
    s.take dest = (false, dest, s) := by
  have hposition := h.position_lt
  have havailable : s.available dest.bytes.length = 0 :=
    Nat.le_zero.mp (Nat.le_trans (available_le_pending h.side_eq _) (Nat.le_of_eq h.pending_eq))
  obtain ⟨side, swapped, buffer, held, position, hheld⟩ := s
  have hconsume : buffer.consume 0 = ([], buffer) := by
    simp [Buffer.consume]
  simp only [take, havailable, hconsume, Nat.add_zero, fill_nil, advance, if_neg (Nat.not_le_of_lt hposition)]

theorem lacks_take {s : FieldStream} {dest : Field} (hside : s.side = .reader)
    (h : (s.take dest).1 = false) :
    (s.take dest).2.2.Lacks (s.take dest).2.1.bytes.length := by
  have hlength : (s.take dest).2.1.bytes.length = dest.bytes.length := length_fill _ _ _ _
  have hlt : s.position + s.available dest.bytes.length < dest.bytes.length := by
    rw [Bool.eq_false_iff, Ne, take_eq_true_iff] at h
    omega
  refine ⟨hside, ?_, ?_⟩
  · rw [pending_take]
    rw [available_eq hside, Buffer.length_unconsumed] at hlt ⊢
    rw [pending]
    omega
  · rw [position_take, h, hlength]
    exact hlt

@[simp] theorem hold_take_held (s : FieldStream) (width : Nat) : s.hold (s.held.take width) = s := by
  obtain ⟨side, swapped, buffer, held, position, hheld⟩ := s
  have hsplice : splice held 0 (held.take width) = held := by
    rw [splice_eq held (by rw [List.length_take]; omega), List.take_zero, List.nil_append, Nat.zero_add]
    exact List.prefix_iff_eq_append.mp (List.take_prefix width held)
  simp only [hold, hsplice]

theorem Lacks.readWord_eq {s : FieldStream} {width : Nat} (h : s.Lacks (s.held.take width).length) :
    s.readWord width = (.ok none, s) := by
  rw [FieldStream.readWord_eq h.side_eq, h.take_eq]
  simp only [Bool.false_eq_true, if_false, hold_take_held]

theorem Lacks.read_eq {s : FieldStream} {dest : Field} (h : s.Lacks dest.bytes.length)
    (hdest : dest.bytes.length ≤ dest.kind.limit) : s.read dest = (.ok (false, dest), s) := by
  rw [read_of_length_le h.side_eq hdest, h.take_eq]

theorem lacks_readWord {s t : FieldStream} {width : Nat} (h : s.readWord width = (.ok none, t)) :
    t.Lacks (t.held.take width).length := by
  by_cases hside : s.side = .reader
  · rw [FieldStream.readWord_eq hside] at h
    cases hdone : (s.take ⟨.fixed, s.held.take width⟩).1 with
    | true => simp [hdone] at h
    | false =>
        have hlacks := lacks_take hside hdone
        have hlength : (s.take ⟨.fixed, s.held.take width⟩).2.1.bytes.length = (t.held.take width).length := by
          rw [List.length_take, t.length_held, ← s.length_held, ← List.length_take]
          exact length_fill _ _ _ _
        rw [hlength] at hlacks
        obtain rfl := (Prod.mk.inj h).2
        exact ⟨hlacks.side_eq, hlacks.pending_eq, hlacks.position_lt⟩
  · simp [readWord, hside] at h

theorem lacks_read {s t : FieldStream} {dest f : Field} (h : s.read dest = (.ok (false, f), t)) :
    t.Lacks dest.bytes.length ∧ f.kind = dest.kind ∧ f.bytes.length = dest.bytes.length ∧
      dest.bytes.length ≤ dest.kind.limit := by
  rw [read] at h
  split at h
  · simp at h
  · split at h
    · simp at h
    · rename_i hside hlimit
      simp only [Prod.mk.injEq, Except.ok.injEq] at h
      obtain ⟨⟨hdone, rfl⟩, rfl⟩ := h
      have hlength : (s.take dest).2.1.bytes.length = dest.bytes.length := length_fill _ _ _ _
      have hlacks := lacks_take (Decidable.not_not.mp hside) hdone
      rw [hlength] at hlacks
      exact ⟨hlacks, rfl, hlength, Nat.le_of_not_lt hlimit⟩

end FieldStream

namespace Request

namespace Intake

/-- The intake with another buffer in its stream. -/
def withBuffer (i : Intake) (buffer : Buffer) : Intake :=
  ⟨{ i.inbound with buffer := buffer }, i.scratch⟩

/-- Whether an operation, while there are no bytes for it, comes to the outcome and leaves the intake as it is. How
much room there is for bytes to come makes no difference. -/
structure Rests {α : Type} (f : Intake → α × Intake) (outcome : α) (i : Intake) : Prop where
  pending_eq : i.inbound.pending = 0
  side_eq : i.inbound.side = .reader
  again : ∀ buffer : Buffer, buffer.pending = 0 → f (i.withBuffer buffer) = (outcome, i.withBuffer buffer)

variable {i j : Intake}

theorem Rests.eq {α : Type} {f : Intake → α × Intake} {outcome : α} (h : i.Rests f outcome) :
    f i = (outcome, i) :=
  h.again i.inbound.buffer h.pending_eq

theorem Rests.withBuffer {α : Type} {f : Intake → α × Intake} {outcome : α} (h : i.Rests f outcome)
    {buffer : Buffer} (hbuffer : buffer.pending = 0) : (i.withBuffer buffer).Rests f outcome :=
  ⟨hbuffer, h.side_eq, h.again⟩

theorem rests_word {width : Nat} (h : i.word width = (.ok none, j)) :
    j.Rests (fun i => i.word width) (.ok none) := by
  have hread : i.inbound.readWord width = (.ok none, j.inbound) := by
    obtain ⟨hresult, hintake⟩ := Prod.mk.inj h
    exact Prod.ext hresult (congrArg Intake.inbound hintake)
  have hlacks := FieldStream.lacks_readWord hread
  refine ⟨hlacks.pending_eq, hlacks.side_eq, fun buffer hbuffer => ?_⟩
  have hagain := (hlacks.withBuffer hbuffer).readWord_eq (s := { j.inbound with buffer := buffer })
  simp only [withBuffer, word, hagain]

theorem rests_store {kind : Field.Kind} {length : Nat} (h : i.store kind length = (.ok none, j)) :
    j.Rests (fun i => i.store kind length) (.ok none) := by
  obtain ⟨inbound, scratch⟩ := i
  simp only [store] at h
  split at h
  · simp at h
  · rename_i hroom
    have hroom := Nat.le_of_not_lt hroom
    have hfront := scratch.length_spareFront hroom
    split at h
    · simp at h
    · rename_i f t hread
      obtain ⟨hlacks, hkind, hlength, hlimit⟩ := FieldStream.lacks_read hread
      obtain rfl := (Prod.mk.inj h).2
      simp only [hfront] at hlacks hlength hlimit
      obtain ⟨fkind, bytes⟩ := f
      subst hkind hlength
      refine ⟨hlacks.pending_eq, hlacks.side_eq, fun buffer hbuffer => ?_⟩
      have hagain := (hlacks.withBuffer hbuffer).read_eq hlimit
      have hleft : ¬(scratch.writeSpare bytes).left < bytes.length := Nat.not_lt_of_le hroom
      simp only [withBuffer, store, if_neg hleft, Buffer.spareFront_writeSpare scratch hroom, hagain,
        Buffer.writeSpare_writeSpare scratch hroom]
    · simp at h

end Intake

namespace Part

variable {l : Limits} {i j : Intake}

theorem rests_afterWord {width : Nat} {next : Nat → Buffer → Except Fault Part}
    (h : afterWord i width next = (.ok none, j)) :
    j.Rests (fun i => afterWord i width next) (.ok none) := by
  have hword : i.word width = (.ok none, j) := by
    unfold afterWord at h
    split at h
    · split at h
      · simp at h
      · simp at h
    · rename_i hword
      rw [hword, (Prod.mk.inj h).2]
    · simp at h
  have hrests := Intake.rests_word hword
  refine ⟨hrests.pending_eq, hrests.side_eq, fun buffer hbuffer => ?_⟩
  simp only [afterWord, hrests.again buffer hbuffer]

theorem rests_afterStore {kind : Field.Kind} {length : Nat} {next : Span → Part}
    (h : afterStore i kind length next = (.ok none, j)) :
    j.Rests (fun i => afterStore i kind length next) (.ok none) := by
  have hstore : i.store kind length = (.ok none, j) := by
    unfold afterStore at h
    split at h
    · simp at h
    · rename_i hstore
      rw [hstore, (Prod.mk.inj h).2]
    · simp at h
  have hrests := Intake.rests_store hstore
  refine ⟨hrests.pending_eq, hrests.side_eq, fun buffer hbuffer => ?_⟩
  simp only [afterStore, hrests.again buffer hbuffer]

theorem rests_step {part : Part} (hpart : ∀ request, part ≠ .complete request)
    (h : part.step l i = (.ok none, j)) : j.Rests (part.step l) (.ok none) := by
  cases part with
  | frequency =>
      rw [step] at h
      exact rests_afterWord h
  | count carrier =>
      rw [step] at h
      exact rests_afterWord h
  | pulses carrier left =>
      cases left with
      | zero => simp [step] at h
      | succ left =>
          rw [step] at h
          exact rests_afterStore h
  | nameLength =>
      rw [step] at h
      exact rests_afterWord h
  | name length =>
      rw [step] at h
      exact rests_afterStore h
  | ssidLength nameSpan =>
      rw [step] at h
      exact rests_afterWord h
  | ssid nameSpan length =>
      rw [step] at h
      exact rests_afterStore h
  | passwordLength nameSpan ssidSpan =>
      rw [step] at h
      exact rests_afterWord h
  | password nameSpan ssidSpan length =>
      rw [step] at h
      exact rests_afterStore h
  | complete request => exact absurd rfl (hpart request)

theorem rests_advance {part next : Part} (hnext : ∀ request, next ≠ .complete request)
    (h : part.advance l i = (.ok next, j)) : j.Rests (next.advance l) (.ok next) := by
  induction part, i using advance.induct l with
  | case1 part i further k hstep ih =>
      rw [advance_of_some hstep] at h
      exact ih h
  | case2 part i k hstep =>
      rw [advance_of_none hstep] at h
      obtain ⟨hpart, rfl⟩ := Prod.mk.inj h
      obtain rfl := Except.ok.inj hpart
      have hrests := rests_step hnext hstep
      exact ⟨hrests.pending_eq, hrests.side_eq,
        fun buffer hbuffer => advance_of_none (hrests.again buffer hbuffer)⟩
  | case3 part i fault k hstep =>
      rw [advance_of_error hstep] at h
      simp at h

end Part

namespace Reading

variable {l : Limits} {i j : Intake}

theorem rests_resumeBody {declared taken : Nat} {part : Part} {reading : Reading}
    (h : resumeBody l declared taken part i = (.ok (.inl reading), j)) :
    j.Rests (reading.resume l) (.ok (.inl reading)) := by
  simp only [resumeBody] at h
  split at h
  · split at h
    · simp at h
    · simp at h
  · rename_i next k hnext hadvance
    split at h
    · rename_i hlt
      simp only [Prod.mk.injEq, Except.ok.injEq, Sum.inl.injEq] at h
      obtain ⟨rfl, rfl⟩ := h
      have hrests := Part.rests_advance (fun request heq => hnext request heq) hadvance
      refine ⟨hrests.pending_eq, hrests.side_eq, fun buffer hbuffer => ?_⟩
      have hagain := hrests.again buffer hbuffer
      -- Nothing more is taken, so the length is compared with the same number of bytes as before.
      have hsame (total : Nat) : total +
          ((k.withBuffer buffer).inbound.pending - (k.withBuffer buffer).inbound.pending) = total := by
        rw [Nat.sub_self, Nat.add_zero]
      cases next with
      | complete request => exact absurd rfl (hnext request)
      | _ => simp only [resume, resumeBody, hagain, hsame, if_pos hlt]
    · simp at h
  · simp at h

theorem rests_resumeLength {part : Part} {reading : Reading}
    (h : resumeLength l part i = (.ok (.inl reading), j)) :
    j.Rests (reading.resume l) (.ok (.inl reading)) := by
  unfold resumeLength at h
  split at h
  · exact rests_resumeBody h
  · rename_i k hword
    simp only [Prod.mk.injEq, Except.ok.injEq, Sum.inl.injEq] at h
    obtain ⟨rfl, rfl⟩ := h
    have hrests := Intake.rests_word hword
    refine ⟨hrests.pending_eq, hrests.side_eq, fun buffer hbuffer => ?_⟩
    simp only [resume, resumeLength, hrests.again buffer hbuffer]
  · simp at h

theorem rests_resumeKind {reading : Reading} (h : resumeKind l i = (.ok (.inl reading), j)) :
    j.Rests (reading.resume l) (.ok (.inl reading)) := by
  unfold resumeKind at h
  split at h
  · split at h
    · exact rests_resumeLength h
    · simp at h
  · rename_i k hword
    simp only [Prod.mk.injEq, Except.ok.injEq, Sum.inl.injEq] at h
    obtain ⟨rfl, rfl⟩ := h
    have hrests := Intake.rests_word hword
    refine ⟨hrests.pending_eq, hrests.side_eq, fun buffer hbuffer => ?_⟩
    simp only [resume, resumeKind, hrests.again buffer hbuffer]
  · simp at h

/-- A reading that stopped for want of bytes stops there again. -/
theorem rests_resume {before reading : Reading} (h : before.resume l i = (.ok (.inl reading), j)) :
    j.Rests (reading.resume l) (.ok (.inl reading)) := by
  cases before with
  | kind => exact rests_resumeKind h
  | length part => exact rests_resumeLength h
  | body declared taken part => exact rests_resumeBody h

end Reading

end Request

end Infrared
