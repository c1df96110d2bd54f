import Infrared.Field.Stream.Lemmas

namespace Infrared.FieldStream

variable {s : FieldStream} {dest : Field} {taken : List UInt8}

theorem position_le_length (hposition : s.position = taken.length)
    (hbegin : taken <+: dest.wire s.swapped) : s.position ≤ dest.bytes.length := by
  have hle := hbegin.length_le
  rwa [Field.wire, Field.length_orient, ← hposition] at hle

theorem available_eq (hside : s.side = .reader) (length : Nat) :
    s.available length = min (length - s.position) s.buffer.unconsumed.length := by
  rw [available, hside, Buffer.length_unconsumed]

theorem wire_take_eq (hside : s.side = .reader) (hposition : s.position = taken.length)
    (hbegin : taken <+: dest.wire s.swapped) :
    (s.take dest).2.1.wire s.swapped =
      (taken ++ s.buffer.unconsumed).take dest.bytes.length ++
        (dest.wire s.swapped).drop (taken ++ s.buffer.unconsumed).length := by
  have hle := position_le_length hposition hbegin
  have hlength : (dest.wire s.swapped).length = dest.bytes.length := Field.length_orient _ _ _
  have htaken : (dest.wire s.swapped).take s.position = taken := by
    rw [hposition]
    exact (List.prefix_iff_eq_take.mp hbegin).symm
  have hfront : (taken ++ s.buffer.unconsumed).take dest.bytes.length =
      taken ++ s.buffer.unconsumed.take (dest.bytes.length - s.position) := by
    rw [List.take_append, List.take_of_length_le (by omega), hposition]
  rw [wire_take, available_eq hside, hfront]
  rcases Nat.le_total (dest.bytes.length - s.position) s.buffer.unconsumed.length with h | h
  · have hmoved : (s.buffer.unconsumed.take (dest.bytes.length - s.position)).length =
        dest.bytes.length - s.position := List.length_take_of_le h
    rw [Nat.min_eq_left h, splice_eq _ (by omega), htaken, hmoved, List.length_append, ← hposition,
      List.drop_eq_nil_of_le (by omega), List.drop_eq_nil_of_le (by omega)]
  · have hmoved : s.buffer.unconsumed.take (dest.bytes.length - s.position) = s.buffer.unconsumed :=
      List.take_of_length_le h
    rw [Nat.min_eq_right h, List.take_of_length_le (Nat.le_refl _), hmoved,
      splice_eq _ (by omega), htaken, List.length_append, ← hposition]

theorem take_eq_of_le (hside : s.side = .reader) (hposition : s.position = taken.length)
    (hbegin : taken <+: dest.wire s.swapped)
    (hle : dest.bytes.length ≤ (taken ++ s.buffer.unconsumed).length) :
    (s.take dest).1 = true ∧
      (s.take dest).2.1 =
        ⟨dest.kind, Field.orient s.swapped dest.kind
          ((taken ++ s.buffer.unconsumed).take dest.bytes.length)⟩ ∧
      (s.take dest).2.2.position = 0 ∧
      (s.take dest).2.2.buffer.unconsumed =
        (taken ++ s.buffer.unconsumed).drop dest.bytes.length := by
  have hposition_le := position_le_length hposition hbegin
  rw [List.length_append, ← hposition] at hle
  have havailable : s.available dest.bytes.length = dest.bytes.length - s.position := by
    rw [available_eq hside]
    omega
  have hdone : (s.take dest).1 = true := by
    rw [take_eq_true_iff, havailable]
    omega
  refine ⟨hdone, ?_, ?_, ?_⟩
  · have hwire := wire_take_eq hside hposition hbegin
    have hlength : (dest.wire s.swapped).length = dest.bytes.length := Field.length_orient _ _ _
    rw [List.drop_eq_nil_of_le (by rw [List.length_append, ← hposition]; omega),
      List.append_nil] at hwire
    have hkind : (s.take dest).2.1.kind = dest.kind := rfl
    rw [← hwire, ← hkind, Field.wire, Field.orient_orient]
  · rw [position_take, hdone]
    rfl
  · have hdrop : taken.drop dest.bytes.length = [] := List.drop_eq_nil_of_le (by omega)
    rw [unconsumed_take, havailable, List.drop_append, hdrop, List.nil_append, hposition]

theorem take_eq_of_lt (hside : s.side = .reader) (hposition : s.position = taken.length)
    (hbegin : taken <+: dest.wire s.swapped)
    (hlt : (taken ++ s.buffer.unconsumed).length < dest.bytes.length) :
    (s.take dest).1 = false ∧
      taken ++ s.buffer.unconsumed <+: (s.take dest).2.1.wire s.swapped ∧
      (s.take dest).2.2.position = (taken ++ s.buffer.unconsumed).length ∧
      (s.take dest).2.2.buffer.unconsumed = [] := by
  rw [List.length_append, ← hposition] at hlt
  have havailable : s.available dest.bytes.length = s.buffer.unconsumed.length := by
    rw [available_eq hside]
    omega
  have hdone : (s.take dest).1 = false := by
    rw [Bool.eq_false_iff, Ne, take_eq_true_iff, havailable]
    omega
  refine ⟨hdone, ?_, ?_, ?_⟩
  · rw [wire_take_eq hside hposition hbegin,
      List.take_of_length_le (by rw [List.length_append, ← hposition]; omega)]
    exact List.prefix_append _ _
  · rw [position_take, hdone, havailable, List.length_append, ← hposition]
    rfl
  · rw [unconsumed_take, havailable]
    exact List.drop_eq_nil_of_le (Nat.le_refl _)

theorem pending_take_le (s : FieldStream) (dest : Field) :
    (s.take dest).2.2.pending ≤ s.pending := by
  rw [pending_take]
  exact Nat.sub_le _ _

theorem pending_readWord_le (s : FieldStream) (width : Nat) :
    (s.readWord width).2.pending ≤ s.pending := by
  rw [readWord]
  split
  · exact Nat.le_refl _
  · exact pending_take_le s _

theorem pending_read_le (s : FieldStream) (dest : Field) : (s.read dest).2.pending ≤ s.pending := by
  rw [read]
  split
  · exact Nat.le_refl _
  · split
    · exact Nat.le_refl _
    · exact pending_take_le s dest

theorem length_take_held (s : FieldStream) {width : Nat} (h : width ≤ Field.Kind.fixed.limit) :
    (s.held.take width).length = width := by
  rw [List.length_take, s.length_held]
  exact Nat.min_eq_left h

/-- The piece of a word is laid over the front of the held bytes, so that the next call finds it there. -/
theorem take_held_hold (s : FieldStream) {word : List UInt8} {width : Nat} (hword : word.length = width)
    (h : width ≤ Field.Kind.fixed.limit) : (s.hold word).held.take width = word := by
  have hroom : 0 + word.length ≤ s.held.length := by
    rw [s.length_held, hword, Nat.zero_add]
    exact h
  have hheld : (s.hold word).held = splice s.held 0 word := rfl
  rw [hheld, splice_eq _ hroom, List.take_zero, List.nil_append, List.take_left' hword]

theorem readWord_eq (hside : s.side = .reader) (width : Nat) :
    s.readWord width =
      (.ok (if (s.take ⟨.fixed, s.held.take width⟩).1 then
          some (Word.value (s.take ⟨.fixed, s.held.take width⟩).2.1.bytes) else none),
        (s.take ⟨.fixed, s.held.take width⟩).2.2.hold
          (s.take ⟨.fixed, s.held.take width⟩).2.1.bytes) := by
  rw [readWord, if_neg (by simp [hside])]

theorem readWord_of_le (hside : s.side = .reader) {width : Nat}
    (hposition : s.position = taken.length) (hwidth : width ≤ Field.Kind.fixed.limit)
    (hbegin : taken <+: (Field.mk .fixed (s.held.take width)).wire s.swapped)
    (hle : width ≤ (taken ++ s.buffer.unconsumed).length) :
    (s.readWord width).1 = .ok (some (Word.value (Field.orient s.swapped .fixed
        ((taken ++ s.buffer.unconsumed).take width)))) ∧
      (s.readWord width).2.position = 0 ∧
      (s.readWord width).2.buffer.unconsumed = (taken ++ s.buffer.unconsumed).drop width := by
  have hlength := s.length_take_held hwidth
  obtain ⟨hdone, hfield, hposition', hrest⟩ := take_eq_of_le hside hposition hbegin
    (by rw [hlength]; exact hle)
  rw [hlength] at hfield hrest
  rw [readWord_eq hside, if_pos hdone, hfield]
  exact ⟨rfl, hposition', hrest⟩

theorem readWord_of_lt (hside : s.side = .reader) {width : Nat}
    (hposition : s.position = taken.length) (hwidth : width ≤ Field.Kind.fixed.limit)
    (hbegin : taken <+: (Field.mk .fixed (s.held.take width)).wire s.swapped)
    (hlt : (taken ++ s.buffer.unconsumed).length < width) :
    (s.readWord width).1 = .ok none ∧
      (s.readWord width).2.position = (taken ++ s.buffer.unconsumed).length ∧
      (s.readWord width).2.buffer.unconsumed = [] ∧
      taken ++ s.buffer.unconsumed <+:
        (Field.mk .fixed ((s.readWord width).2.held.take width)).wire s.swapped := by
  have hlength := s.length_take_held hwidth
  obtain ⟨hdone, hfield, hposition', hrest⟩ := take_eq_of_lt hside hposition hbegin
    (by rw [hlength]; exact hlt)
  rw [readWord_eq hside, if_neg (by simp [hdone])]
  refine ⟨rfl, hposition', hrest, ?_⟩
  have hfull : (s.take ⟨.fixed, s.held.take width⟩).2.1.bytes.length = width :=
    (length_fill _ _ _ _).trans hlength
  dsimp only
  rw [take_held_hold _ hfull hwidth]
  exact hfield

theorem exists_feed_of_le (hside : s.side = .reader) {bytes : List UInt8}
    (h : bytes.length + s.pending ≤ s.capacity) :
    ∃ buffer, s.feed bytes = (.ok (), { s with buffer := buffer }) ∧
      buffer.capacity = s.capacity ∧ buffer.unconsumed = s.buffer.unconsumed ++ bytes := by
  obtain ⟨side, swapped, buffer, held, position, hheld⟩ := s
  have hside : side = .reader := hside
  subst hside
  have hroom : bytes.length ≤ buffer.compact.left := by
    rw [Buffer.left_compact]
    simp only [pending, capacity] at h
    omega
  refine ⟨buffer.compact.append bytes, ?_, ?_, ?_⟩
  · rw [feed, Buffer.extend_of_le _ hroom]
  · exact (Buffer.capacity_append _ _).trans (Buffer.capacity_compact _)
  · rw [Buffer.unconsumed_append _ hroom, Buffer.unconsumed_compact]

theorem exists_feed_of_lt (hside : s.side = .reader) {bytes : List UInt8}
    (h : s.capacity < bytes.length + s.pending) :
    ∃ buffer, s.feed bytes = (.error .payloadTooLarge, { s with buffer := buffer }) ∧
      buffer.capacity = s.capacity ∧ buffer.unconsumed = s.buffer.unconsumed := by
  obtain ⟨side, swapped, buffer, held, position, hheld⟩ := s
  have hside : side = .reader := hside
  subst hside
  have hroom : buffer.compact.left < bytes.length := by
    have hpending : buffer.pending ≤ buffer.capacity :=
      Nat.le_trans (Nat.sub_le _ _) buffer.cursor_le_capacity
    rw [Buffer.left_compact]
    simp only [pending, capacity] at h
    omega
  exact ⟨buffer.compact, by rw [feed, Buffer.extend_of_lt _ hroom], Buffer.capacity_compact _,
    Buffer.unconsumed_compact _⟩

end Infrared.FieldStream
