import Infrared.Proofs.Field.Machine

namespace Infrared.FieldStream

/-- The side of a stream that a call is for, if it is not for both. -/
def Call.side? : Call → Option Side
  | .feed _ | .read _ | .readWord _ => some .reader
  | .write _ => some .writer
  | _ => none

/-- What is too much about a call. -/
def Call.excess? (s : FieldStream) : Call → Option Fault
  | .feed bytes => if s.capacity < s.pending + bytes.length then some .payloadTooLarge else none
  | .read f | .write f => if f.kind.limit < f.bytes.length then some f.kind.excess else none
  | _ => none

/-- Why a call is refused, if it is. -/
def refusal? (s : FieldStream) (call : Call) : Option Fault :=
  if call.side?.getD s.side ≠ s.side then some .invalidOperation else call.excess? s

/-- The field that a call moves. -/
def Call.field? (s : FieldStream) : Call → Option Field
  | .read f | .write f => some f
  | .readWord width => some ⟨.fixed, s.held.take width⟩
  | _ => none

/-- What there is of a field after a call that read it. -/
def Call.stored? (after : FieldStream) (reply : Reply) : Call → Option Field
  | .read _ =>
    match reply with
    | .received _ dest => some dest
    | _ => none
  | .readWord width => some ⟨.fixed, after.held.take width⟩
  | _ => none

/-- Whether a field was complete. -/
def Reply.complete? : Reply → Option Bool
  | .received complete _ | .written complete => some complete
  | .word value => some value.isSome
  | _ => none

/-- Whether a call moves all of a field that can be moved, and no more. -/
structure Moves (s : FieldStream) (call : Call) (f : Field) (reply : Reply) : Prop where
  complete_eq : reply.complete? = some (decide (f.bytes.length ≤ s.position + s.available f.bytes.length))
  position_eq : (s.perform call).2.position =
    if f.bytes.length ≤ s.position + s.available f.bytes.length then 0
    else s.position + s.available f.bytes.length
  read : s.side = .reader →
    s.available f.bytes.length = min (f.bytes.length - s.position) s.buffer.unconsumed.length ∧
      (s.perform call).2.buffer.unconsumed = s.buffer.unconsumed.drop (s.available f.bytes.length) ∧
      call.stored? (s.perform call).2 reply = some (fill s.swapped f s.position
        (s.buffer.unconsumed.take (s.available f.bytes.length)))
  written : s.side = .writer →
    s.available f.bytes.length = min (f.bytes.length - s.position) (s.capacity - s.data.length) ∧
      (piece s.swapped f s.position (s.available f.bytes.length)).length = s.available f.bytes.length ∧
      (s.perform call).2.data = s.data ++ piece s.swapped f s.position (s.available f.bytes.length)

/-- Whether nothing was lost or added that a stream has of its fields. -/
structure Keeps (s t : FieldStream) : Prop where
  unconsumed_eq : t.buffer.unconsumed = s.buffer.unconsumed
  data_eq : s.side = .writer → t.data = s.data
  position_eq : t.position = s.position

theorem Keeps.refl (s : FieldStream) : s.Keeps s :=
  ⟨rfl, fun _ => rfl, rfl⟩

variable {s : FieldStream}

theorem take_fst (s : FieldStream) (dest : Field) :
    (s.take dest).1 = decide (dest.bytes.length ≤ s.position + s.available dest.bytes.length) := by
  rw [Bool.eq_iff_iff, take_eq_true_iff, decide_eq_true_iff]

theorem give_fst (s : FieldStream) (f : Field) :
    (s.give f).1 = decide (f.bytes.length ≤ s.position + s.available f.bytes.length) := by
  rw [Bool.eq_iff_iff, give_eq_true_iff, decide_eq_true_iff]

theorem take_stored (s : FieldStream) (dest : Field) :
    (s.take dest).2.1 = fill s.swapped dest s.position
      (s.buffer.unconsumed.take (s.available dest.bytes.length)) := by
  rw [← Buffer.consume_fst]
  rfl

/-- What is taken of a field is what a call that reads it moves. -/
theorem moves_of_take {call : Call} {dest : Field} {reply : Reply} (hside : s.side = .reader)
    (hcomplete : reply.complete? = some (s.take dest).1)
    (hposition : (s.perform call).2.position = (s.take dest).2.2.position)
    (hrest : (s.perform call).2.buffer = (s.take dest).2.2.buffer)
    (hstored : call.stored? (s.perform call).2 reply = some (s.take dest).2.1) :
    s.Moves call dest reply := by
  refine ⟨?_, ?_, ?_, ?_⟩
  · rw [hcomplete, take_fst]
  · rw [hposition, position_take, take_fst]
    simp only [decide_eq_true_eq]
  · intro _
    exact ⟨available_eq hside _, by rw [hrest, unconsumed_take], by rw [hstored, take_stored]⟩
  · intro hwriter
    rw [hside] at hwriter
    exact absurd hwriter (by decide)

theorem read_moves (hside : s.side = .reader) {dest : Field}
    (hlength : dest.bytes.length ≤ dest.kind.limit) :
    ∃ reply, (s.perform (.read dest)).1 = .ok reply ∧ s.Moves (.read dest) dest reply := by
  have hread : s.perform (.read dest) =
      (.ok (.received (s.take dest).1 (s.take dest).2.1), (s.take dest).2.2) := by
    rw [perform, read_of_length_le hside hlength]
    rfl
  refine ⟨_, congrArg Prod.fst hread, moves_of_take hside rfl ?_ ?_ rfl⟩
  · rw [hread]
  · rw [hread]

theorem readWord_moves (hside : s.side = .reader) (width : Fin (Field.Kind.fixed.limit + 1)) :
    ∃ reply, (s.perform (.readWord width)).1 = .ok reply ∧
      s.Moves (.readWord width) ⟨.fixed, s.held.take width⟩ reply := by
  have hwidth := Nat.le_of_lt_succ width.isLt
  have hword : (s.take ⟨.fixed, s.held.take width⟩).2.1.bytes.length = width :=
    (length_fill _ _ _ _).trans (s.length_take_held hwidth)
  have hread : s.perform (.readWord width) =
      (.ok (.word (if (s.take ⟨.fixed, s.held.take width⟩).1 then
          some (Word.value (s.take ⟨.fixed, s.held.take width⟩).2.1.bytes) else none)),
        (s.take ⟨.fixed, s.held.take width⟩).2.2.hold (s.take ⟨.fixed, s.held.take width⟩).2.1.bytes) := by
    rw [perform, readWord_eq hside]
    rfl
  refine ⟨_, congrArg Prod.fst hread, moves_of_take hside ?_ ?_ ?_ ?_⟩
  · cases hdone : (s.take ⟨.fixed, s.held.take width⟩).1 with
    | true => rfl
    | false => rfl
  · rw [hread]
    rfl
  · rw [hread]
    rfl
  · rw [hread, Call.stored?, take_held_hold _ hword hwidth]
    rfl

theorem write_moves (hside : s.side = .writer) {f : Field} (hlength : f.bytes.length ≤ f.kind.limit) :
    ∃ reply, (s.perform (.write f)).1 = .ok reply ∧ s.Moves (.write f) f reply := by
  have hwrite : s.perform (.write f) = (.ok (.written (s.give f).1), (s.give f).2) := by
    rw [perform, write_of_length_le hside hlength]
    rfl
  refine ⟨_, congrArg Prod.fst hwrite, ?_, ?_, ?_, ?_⟩
  · rw [Reply.complete?, give_fst]
  · rw [hwrite, position_give, give_fst]
    simp only [decide_eq_true_eq]
  · intro hreader
    rw [hside] at hreader
    exact absurd hreader (by decide)
  · intro _
    refine ⟨?_, s.length_piece_available f, ?_⟩
    · rw [available, hside, data, Buffer.length_filled]
      rfl
    · rw [hwrite]
      exact data_give hside f

theorem perform_of_side_ne {call : Call} (h : call.side?.getD s.side ≠ s.side) :
    s.perform call = (.error .invalidOperation, s) := by
  obtain ⟨side, swapped, buffer, held, position, hheld⟩ := s
  cases call with
  | drain | reset | begin _ | look => exact absurd rfl h
  | feed _ | read _ | readWord _ =>
      cases side with
      | reader => exact absurd rfl h
      | writer => rfl
  | write _ =>
      cases side with
      | reader => rfl
      | writer => exact absurd rfl h

theorem perform_of_excess {call : Call} {fault : Fault} (hside : call.side?.getD s.side = s.side)
    (h : call.excess? s = some fault) :
    (s.perform call).1 = .error fault ∧ s.Keeps (s.perform call).2 := by
  cases call with
  | drain | reset | begin _ | look | readWord _ => simp [Call.excess?] at h
  | feed bytes =>
      have hside : s.side = .reader := hside.symm
      obtain ⟨hfull, ⟨⟩⟩ := Option.ite_none_right_eq_some.mp h
      rw [Nat.add_comm] at hfull
      obtain ⟨buffer, hfeed, -, hunconsumed⟩ := exists_feed_of_lt hside hfull
      rw [perform, hfeed]
      exact ⟨rfl, hunconsumed, by simp [hside], rfl⟩
  | read dest =>
      have hside : s.side = .reader := hside.symm
      obtain ⟨hlimit, ⟨⟩⟩ := Option.ite_none_right_eq_some.mp h
      rw [perform, read, if_neg (by simp [hside]), if_pos hlimit]
      exact ⟨rfl, Keeps.refl s⟩
  | write f =>
      have hside : s.side = .writer := hside.symm
      obtain ⟨hlimit, ⟨⟩⟩ := Option.ite_none_right_eq_some.mp h
      rw [perform, write, if_neg (by simp [hside]), if_pos hlimit]
      exact ⟨rfl, Keeps.refl s⟩

theorem perform_of_accepted {call : Call} (hside : call.side?.getD s.side = s.side)
    (h : call.excess? s = none) :
    ∃ reply, (s.perform call).1 = .ok reply ∧ ∀ f ∈ call.field? s, s.Moves call f reply := by
  cases call with
  | drain | reset | begin _ | look => exact ⟨_, rfl, by simp [Call.field?]⟩
  | feed bytes =>
      simp only [Call.excess?, ite_eq_right_iff, reduceCtorEq, imp_false] at h
      have hroom : bytes.length + s.pending ≤ s.capacity := by omega
      obtain ⟨buffer, hfeed, -⟩ := exists_feed_of_le hside.symm hroom
      refine ⟨.nothing, ?_, by simp [Call.field?]⟩
      rw [perform, hfeed]
      rfl
  | read dest =>
      simp only [Call.excess?, ite_eq_right_iff, reduceCtorEq, imp_false] at h
      obtain ⟨reply, hreply, hmoves⟩ := read_moves hside.symm (Nat.le_of_not_lt h)
      refine ⟨reply, hreply, ?_⟩
      rintro f ⟨⟩
      exact hmoves
  | write f =>
      simp only [Call.excess?, ite_eq_right_iff, reduceCtorEq, imp_false] at h
      obtain ⟨reply, hreply, hmoves⟩ := write_moves hside.symm (Nat.le_of_not_lt h)
      refine ⟨reply, hreply, ?_⟩
      rintro f ⟨⟩
      exact hmoves
  | readWord width =>
      obtain ⟨reply, hreply, hmoves⟩ := readWord_moves hside.symm width
      refine ⟨reply, hreply, ?_⟩
      rintro f ⟨⟩
      exact hmoves

/-- Whether a call does what it should: it is refused for a reason and nothing is lost, or it moves its field. -/
def Behaves (s : FieldStream) (call : Call) : Prop :=
  match s.refusal? call with
  | some fault => (s.perform call).1 = .error fault ∧ s.Keeps (s.perform call).2
  | none => ∃ reply, (s.perform call).1 = .ok reply ∧ ∀ f ∈ call.field? s, s.Moves call f reply

theorem behaves (s : FieldStream) (call : Call) : s.Behaves call := by
  rw [Behaves, refusal?]
  by_cases hside : call.side?.getD s.side = s.side
  · rw [if_neg (not_not_intro hside)]
    cases hexcess : call.excess? s with
    | some fault => exact perform_of_excess hside hexcess
    | none => exact perform_of_accepted hside hexcess
  · rw [if_pos hside, perform_of_side_ne hside]
    exact ⟨rfl, Keeps.refl s⟩

theorem feed_accepted_iff (s : FieldStream) (bytes : List UInt8) :
    (∃ reply, (s.perform (.feed bytes)).1 = .ok reply) ↔
      s.side = .reader ∧ s.pending + bytes.length ≤ s.capacity := by
  constructor
  · rintro ⟨reply, hreply⟩
    have hbehaves := s.behaves (.feed bytes)
    rw [Behaves, refusal?] at hbehaves
    by_cases hside : s.side = .reader
    · refine ⟨hside, Nat.le_of_not_lt fun hfull => ?_⟩
      rw [if_neg (by simp [Call.side?, hside]), Call.excess?, if_pos hfull, hreply] at hbehaves
      simp at hbehaves
    · rw [if_pos (by simpa [Call.side?] using Ne.symm hside), hreply] at hbehaves
      simp at hbehaves
  · rintro ⟨hside, hroom⟩
    have hexcess : Call.excess? s (.feed bytes) = none := if_neg (Nat.not_lt.mpr hroom)
    have hplaced : (Call.feed bytes).side?.getD s.side = s.side := hside.symm
    obtain ⟨reply, hreply, -⟩ := perform_of_accepted hplaced hexcess
    exact ⟨reply, hreply⟩

theorem continues_perform (s : FieldStream) (call : Call) : s.Continues (s.perform call).2 := by
  cases call with
  | drain | reset | begin _ | look => exact ⟨rfl, rfl, rfl⟩
  | feed bytes =>
      obtain ⟨side, swapped, buffer, held, position, hheld⟩ := s
      cases side with
      | reader =>
          refine ⟨rfl, rfl, ?_⟩
          change (buffer.compact.extend bytes).2.capacity = buffer.capacity
          rcases Nat.lt_or_ge buffer.compact.left bytes.length with hlt | hle
          · rw [Buffer.extend_of_lt _ hlt, Buffer.capacity_compact]
          · rw [Buffer.extend_of_le _ hle, Buffer.capacity_append, Buffer.capacity_compact]
      | writer => exact ⟨rfl, rfl, rfl⟩
  | read dest =>
      simp only [perform, read]
      split
      · exact ⟨rfl, rfl, rfl⟩
      · split
        · exact ⟨rfl, rfl, rfl⟩
        · exact ⟨rfl, rfl, rfl⟩
  | write f =>
      simp only [perform, write]
      split
      · exact ⟨rfl, rfl, rfl⟩
      · split
        · exact ⟨rfl, rfl, rfl⟩
        · exact ⟨rfl, rfl, s.capacity_give f⟩
  | readWord width =>
      simp only [perform, readWord]
      split
      · exact ⟨rfl, rfl, rfl⟩
      · exact ⟨rfl, rfl, rfl⟩

theorem continues_run (s : FieldStream) (calls : List Call) : s.Continues (s.run calls).2 := by
  induction calls generalizing s with
  | nil => exact ⟨rfl, rfl, rfl⟩
  | cons call calls ih =>
      have hcall := s.continues_perform call
      have hcalls := ih (s.perform call).2
      exact ⟨hcalls.side_eq.trans hcall.side_eq, hcalls.swapped_eq.trans hcall.swapped_eq,
        hcalls.capacity_eq.trans hcall.capacity_eq⟩

theorem run_append (s : FieldStream) (calls more : List Call) :
    s.run (calls ++ more) =
      ((s.run calls).1 ++ ((s.run calls).2.run more).1, ((s.run calls).2.run more).2) := by
  induction calls generalizing s with
  | nil => rfl
  | cons call calls ih =>
      change ((s.perform call).1 :: ((s.perform call).2.run (calls ++ more)).1,
        ((s.perform call).2.run (calls ++ more)).2) = _
      rw [ih]
      rfl

theorem exists_run_new (side : Side) (capacity : Nat) (swapped : Bool) (calls : List Call) :
    ∃ c, (CheckedStream.new side capacity swapped).run calls =
      some (((new side capacity swapped).run calls).1, c) := by
  have hposition : (new side capacity swapped).position ≤ Packet.lengthLimit := Nat.zero_le _
  obtain ⟨register, hrun⟩ := exists_run_checked hposition 0 calls
  rw [checked_new] at hrun
  exact ⟨_, hrun⟩

/-- A stream is sound whatever is asked of it: nothing is out of range and nothing overflows, each call is
refused for a reason of its own or moves its field as far as it can, and a field that is only begun has no effect
on what comes later. Bytes are accepted by a reader that has room for all of them, and by no writer. -/
theorem run_sound (side : Side) (capacity : Nat) (swapped : Bool) (calls : List Call) :
    let answers := ((new side capacity swapped).run calls).1
    let s := ((new side capacity swapped).run calls).2
    let machine := CheckedStream.new side capacity swapped
    (∃ c, machine.run calls = some (answers, c)) ∧
    (s.side = side ∧ s.capacity = capacity ∧ s.swapped = swapped) ∧
    (∀ call, s.Behaves call) ∧
    (∀ length more, ∃ rest c c',
      machine.run (calls ++ .begin length :: more) =
        some (answers ++ .ok (.room (s.available length.toNat)) :: rest, c) ∧
      machine.run (calls ++ more) = some (answers ++ rest, c')) ∧
    ∀ bytes, (∃ reply, (s.perform (.feed bytes)).1 = .ok reply) ↔
      side = .reader ∧ s.pending + bytes.length ≤ capacity := by
  intro answers s machine
  have hcontinues := (new side capacity swapped).continues_run calls
  have hside : s.side = side := hcontinues.side_eq
  have hcapacity : s.capacity = capacity := hcontinues.capacity_eq
  refine ⟨exists_run_new side capacity swapped calls, ⟨hside, hcapacity, hcontinues.swapped_eq⟩, s.behaves,
    ?_, ?_⟩
  · intro length more
    obtain ⟨c, hwith⟩ := exists_run_new side capacity swapped (calls ++ .begin length :: more)
    obtain ⟨c', hwithout⟩ := exists_run_new side capacity swapped (calls ++ more)
    rw [run_append] at hwith hwithout
    exact ⟨(s.run more).1, c, c', hwith, hwithout⟩
  · intro bytes
    rw [feed_accepted_iff, hside, hcapacity]

/-- A word of four bytes of which three have arrived is given up for a field of two. That field counts as complete
at once, and nothing is moved into it. -/
theorem run_sound_shrunk :
    let s := ((new .reader 8 true).run [.feed [1, 2, 3], .readWord 4]).2
    let call : Call := .read ⟨.fixed, [7, 7]⟩
    s.position = 3 ∧ ∃ reply, (s.perform call).1 = .ok reply ∧ reply.complete? = some true ∧
      call.stored? (s.perform call).2 reply = some ⟨.fixed, [7, 7]⟩ ∧ (s.perform call).2.position = 0 := by
  intro s call
  obtain ⟨-, -, hbehaves, -⟩ := run_sound .reader 8 true [.feed [1, 2, 3], .readWord 4]
  have hcall := hbehaves call
  have haccepted : s.refusal? call = none := by decide +kernel
  rw [Behaves, haccepted] at hcall
  obtain ⟨reply, hreply, hmoves⟩ := hcall
  have hfield := hmoves ⟨.fixed, [7, 7]⟩ rfl
  have hposition : s.position = 3 := by decide +kernel
  exact ⟨hposition, reply, hreply, hfield.complete_eq.trans (by decide +kernel),
    (hfield.read rfl).2.2.trans (by decide +kernel), hfield.position_eq.trans (by decide +kernel)⟩

/-- A writer accepts no bytes, not even one that there is room for. -/
theorem not_feed_of_writer :
    let s := ((new .writer 4 true).run []).2
    s.pending + [(1 : UInt8)].length ≤ s.capacity ∧
      ¬∃ reply, (s.perform (.feed [1])).1 = .ok reply := by
  refine ⟨by decide +kernel, ?_⟩
  rintro ⟨reply, ⟨⟩⟩

end Infrared.FieldStream
