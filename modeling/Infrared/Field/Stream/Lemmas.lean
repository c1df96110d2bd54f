import Infrared.Buffer.Lemmas
import Infrared.Field.Stream

namespace Infrared

namespace FieldStream

theorem length_piece (swapped : Bool) (f : Field) {position n : Nat}
    (h : position + n ≤ f.bytes.length) : (piece swapped f position n).length = n := by
  rw [piece, Field.wire, List.length_take, List.length_drop, Field.length_orient]
  omega

theorem piece_of_length_le (swapped : Bool) (f : Field) {n : Nat} (h : f.bytes.length ≤ n) :
    piece swapped f 0 n = f.wire swapped := by
  rw [piece, List.drop_zero]
  exact List.take_of_length_le (by simpa [Field.wire] using h)

theorem splice_eq (dest : List UInt8) {position : Nat} {bytes : List UInt8}
    (h : position + bytes.length ≤ dest.length) :
    splice dest position bytes =
      dest.take position ++ bytes ++ dest.drop (position + bytes.length) := by
  rw [splice]
  apply List.take_of_length_le
  simp only [List.length_append, List.length_take, List.length_drop]
  omega

@[simp] theorem splice_nil (dest : List UInt8) (position : Nat) : splice dest position [] = dest := by
  rw [splice, List.append_nil, List.length_nil, Nat.add_zero, List.take_append_drop,
    List.take_of_length_le (Nat.le_refl _)]

@[simp] theorem fill_nil (swapped : Bool) (dest : Field) (position : Nat) :
    fill swapped dest position [] = dest := by
  rw [fill, splice_nil, Field.orient_orient]

theorem splice_splice (dest : List UInt8) {position : Nat} {front back : List UInt8}
    (h : position + front.length + back.length ≤ dest.length) :
    splice (splice dest position front) (position + front.length) back =
      splice dest position (front ++ back) := by
  have hfront : (dest.take position ++ front).length = position + front.length := by
    rw [List.length_append, List.length_take]
    omega
  rw [splice_eq dest (by omega), splice_eq dest (by rw [List.length_append]; omega)]
  rw [splice_eq _ (by simp only [List.length_append, List.length_take, List.length_drop]; omega)]
  rw [List.take_left' hfront, ← List.drop_drop, List.drop_left' hfront, List.drop_drop,
    List.length_append, Nat.add_assoc]
  simp only [List.append_assoc]

/-- A field that is read has the wire form into which its bytes were laid. -/
theorem wire_fill (swapped : Bool) (dest : Field) (position : Nat) (bytes : List UInt8) :
    (fill swapped dest position bytes).wire swapped =
      splice (dest.wire swapped) position bytes := by
  rw [fill, Field.wire, Field.orient_orient, Field.wire]

theorem available_le_length (s : FieldStream) (length : Nat) :
    s.available length ≤ length - s.position :=
  Nat.min_le_left _ _

theorem available_le_left {s : FieldStream} (h : s.side = .writer) (length : Nat) :
    s.available length ≤ s.left := by
  rw [available, h]
  exact Nat.min_le_right _ _

theorem available_le_pending {s : FieldStream} (h : s.side = .reader) (length : Nat) :
    s.available length ≤ s.pending := by
  rw [available, h]
  exact Nat.min_le_right _ _

theorem advance_eq_true_iff (length position : Nat) :
    (advance length position).1 = true ↔ length ≤ position := by
  rw [advance]
  split
  · simp_all
  · simp_all

@[simp] theorem side_give (s : FieldStream) (f : Field) : (s.give f).2.side = s.side := rfl

@[simp] theorem swapped_give (s : FieldStream) (f : Field) : (s.give f).2.swapped = s.swapped := rfl

@[simp] theorem capacity_give (s : FieldStream) (f : Field) :
    (s.give f).2.capacity = s.capacity := by
  simp [give, capacity]

theorem give_eq_true_iff (s : FieldStream) (f : Field) :
    (s.give f).1 = true ↔ f.bytes.length ≤ s.position + s.available f.bytes.length :=
  advance_eq_true_iff _ _

theorem position_give (s : FieldStream) (f : Field) :
    (s.give f).2.position =
      if (s.give f).1 then 0 else s.position + s.available f.bytes.length := by
  simp only [give, advance]
  split
  · rfl
  · rfl

theorem length_piece_available (s : FieldStream) (f : Field) :
    (piece s.swapped f s.position (s.available f.bytes.length)).length = s.available f.bytes.length := by
  have hle := s.available_le_length f.bytes.length
  rw [piece, Field.wire, List.length_take, List.length_drop, Field.length_orient]
  omega

theorem data_give {s : FieldStream} (h : s.side = .writer) (f : Field) :
    (s.give f).2.data =
      s.data ++ piece s.swapped f s.position (s.available f.bytes.length) := by
  apply Buffer.filled_append
  exact Nat.le_trans (Nat.le_of_eq (length_piece_available s f)) (available_le_left h _)

theorem left_give (s : FieldStream) (f : Field) :
    (s.give f).2.left =
      s.left - (piece s.swapped f s.position (s.available f.bytes.length)).length := by
  exact Buffer.left_append _ _

theorem write_of_length_le {s : FieldStream} (h : s.side = .writer) {f : Field}
    (hf : f.bytes.length ≤ f.kind.limit) :
    s.write f = (.ok (s.give f).1, (s.give f).2) := by
  rw [write, if_neg (by simp [h]), if_neg (by omega)]

@[simp] theorem side_take (s : FieldStream) (dest : Field) :
    (s.take dest).2.2.side = s.side := rfl

@[simp] theorem swapped_take (s : FieldStream) (dest : Field) :
    (s.take dest).2.2.swapped = s.swapped := rfl

@[simp] theorem capacity_take (s : FieldStream) (dest : Field) :
    (s.take dest).2.2.capacity = s.capacity := rfl

theorem take_eq_true_iff (s : FieldStream) (dest : Field) :
    (s.take dest).1 = true ↔ dest.bytes.length ≤ s.position + s.available dest.bytes.length :=
  advance_eq_true_iff _ _

theorem position_take (s : FieldStream) (dest : Field) :
    (s.take dest).2.2.position =
      if (s.take dest).1 then 0 else s.position + s.available dest.bytes.length := by
  simp only [take, advance]
  split
  · rfl
  · rfl

theorem unconsumed_take (s : FieldStream) (dest : Field) :
    (s.take dest).2.2.buffer.unconsumed =
      s.buffer.unconsumed.drop (s.available dest.bytes.length) :=
  Buffer.unconsumed_consume _ _

theorem pending_take (s : FieldStream) (dest : Field) :
    (s.take dest).2.2.pending = s.pending - s.available dest.bytes.length :=
  Buffer.pending_consume _ _

theorem wire_take (s : FieldStream) (dest : Field) :
    (s.take dest).2.1.wire s.swapped =
      splice (dest.wire s.swapped) s.position
        (s.buffer.unconsumed.take (s.available dest.bytes.length)) := by
  rw [← Buffer.consume_fst]
  exact wire_fill _ _ _ _

theorem read_of_length_le {s : FieldStream} (h : s.side = .reader) {dest : Field}
    (hdest : dest.bytes.length ≤ dest.kind.limit) :
    s.read dest = (.ok ((s.take dest).1, (s.take dest).2.1), (s.take dest).2.2) := by
  rw [read, if_neg (by simp [h]), if_neg (by omega)]

/-- A writer between two fields, with as much room as the fields take. -/
structure HasRoom (s : FieldStream) (length : Nat) : Prop where
  side_eq : s.side = .writer
  position_eq : s.position = 0
  le_left : length ≤ s.left

theorem HasRoom.available_eq {s : FieldStream} {length : Nat} (h : s.HasRoom length) :
    s.available length = length := by
  rw [available, h.side_eq, h.position_eq]
  exact Nat.min_eq_left h.le_left

theorem put_of_hasRoom {s : FieldStream} {f : Field} (h : s.HasRoom f.bytes.length)
    (hf : f.bytes.length ≤ f.kind.limit) : s.put f = .ok (s.give f).2 := by
  have hdone : (s.give f).1 = true := by
    rw [give_eq_true_iff, h.available_eq]
    exact Nat.le_add_left _ _
  rw [put, write_of_length_le h.side_eq hf, hdone]

theorem data_give_of_hasRoom {s : FieldStream} {f : Field} (h : s.HasRoom f.bytes.length) :
    (s.give f).2.data = s.data ++ f.wire s.swapped := by
  rw [data_give h.side_eq, h.available_eq, h.position_eq,
    piece_of_length_le _ _ (Nat.le_refl _)]

theorem left_give_of_hasRoom {s : FieldStream} {f : Field} (h : s.HasRoom f.bytes.length) :
    (s.give f).2.left = s.left - f.bytes.length := by
  rw [left_give, h.available_eq, h.position_eq, length_piece _ _ (by omega)]

theorem hasRoom_give {s : FieldStream} {f : Field} {length : Nat}
    (h : s.HasRoom (f.bytes.length + length)) : (s.give f).2.HasRoom length := by
  have hf : s.HasRoom f.bytes.length :=
    ⟨h.side_eq, h.position_eq, Nat.le_trans (Nat.le_add_right _ _) h.le_left⟩
  have hdone : (s.give f).1 = true := by
    rw [give_eq_true_iff, hf.available_eq]
    exact Nat.le_add_left _ _
  have hle := h.le_left
  refine ⟨h.side_eq, ?_, ?_⟩
  · rw [position_give, hdone]
    rfl
  · rw [left_give_of_hasRoom hf]
    omega

theorem exists_putAll_of_hasRoom {s : FieldStream} {fields : List Field}
    (h : s.HasRoom (fields.flatMap fun f => f.bytes).length)
    (hfields : ∀ f ∈ fields, f.bytes.length ≤ f.kind.limit) :
    ∃ t, s.putAll fields = .ok t ∧ t.left = s.left - (fields.flatMap fun f => f.bytes).length ∧
      t.data = s.data ++ fields.flatMap (Field.wire s.swapped) := by
  induction fields generalizing s with
  | nil => exact ⟨s, rfl, rfl, by simp⟩
  | cons f fields ih =>
      rw [List.flatMap_cons, List.length_append] at h
      have hf : s.HasRoom f.bytes.length :=
        ⟨h.side_eq, h.position_eq, Nat.le_trans (Nat.le_add_right _ _) h.le_left⟩
      obtain ⟨t, hput, hleft, hdata⟩ :=
        ih (hasRoom_give h) fun g hg => hfields g (List.mem_cons_of_mem _ hg)
      refine ⟨t, ?_, ?_, ?_⟩
      · rw [putAll, put_of_hasRoom hf (hfields f List.mem_cons_self)]
        exact hput
      · rw [hleft, left_give_of_hasRoom hf, List.flatMap_cons, List.length_append, Nat.sub_sub]
      · rw [hdata, data_give_of_hasRoom hf, swapped_give, List.flatMap_cons, List.append_assoc]

end FieldStream

end Infrared
