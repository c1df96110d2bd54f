import Infrared.Buffer

namespace Infrared.Buffer

theorem toList_overwrite {capacity : Nat} {data : Array UInt8} {index : Nat} {bytes : List UInt8}
    (hindex : index ≤ data.size) (h : index + bytes.length ≤ capacity) :
    (overwrite capacity data index bytes).toList =
      data.toList.take index ++ bytes ++ data.toList.drop (index + bytes.length) := by
  induction bytes generalizing data index with
  | nil => simp [overwrite]
  | cons byte bytes ih =>
      simp only [List.length_cons] at h
      have hlength : data.toList.length = data.size := Array.length_toList
      have hfront : (data.toList.take index ++ [byte]).length = index + 1 := by
        rw [List.length_append, List.length_take]
        simp only [List.length_cons, List.length_nil]
        omega
      rw [overwrite]
      split
      · rename_i hlt
        have hset : data.toList.set index byte =
            (data.toList.take index ++ [byte]) ++ data.toList.drop (index + 1) := by
          rw [List.set_eq_take_append_cons_drop, if_pos (by omega), List.append_assoc]
          rfl
        rw [ih (by rw [Array.size_setIfInBounds]; omega) (by omega), Array.toList_setIfInBounds, hset,
          List.take_left' hfront, ← List.drop_drop, List.drop_left' hfront]
        simp [Nat.add_assoc, Nat.add_comm 1]
      · rename_i hlt
        have htake : data.toList.take index = data.toList := List.take_of_length_le (by omega)
        rw [htake] at hfront ⊢
        rw [if_pos (by omega), ih (by rw [Array.size_push]; omega) (by omega), Array.toList_push,
          List.take_of_length_le (by omega), List.drop_eq_nil_of_le (by omega),
          List.drop_eq_nil_of_le (by simp only [List.length_cons]; omega)]
        simp

theorem overwrite_take {capacity : Nat} {data : Array UInt8} {index : Nat} (hindex : index ≤ data.size)
    (hsize : data.size ≤ capacity) (bytes : List UInt8) :
    overwrite capacity data index (bytes.take (capacity - index)) =
      overwrite capacity data index bytes := by
  induction bytes generalizing data index with
  | nil => rw [List.take_nil]
  | cons byte bytes ih =>
      rcases Nat.lt_or_ge index capacity with hlt | hge
      · rw [show capacity - index = capacity - (index + 1) + 1 by omega, List.take_succ_cons, overwrite,
          overwrite]
        split
        · exact ih (by rw [Array.size_setIfInBounds]; omega) (by rwa [Array.size_setIfInBounds])
        · rw [if_pos (by omega), if_pos (by omega)]
          exact ih (by rw [Array.size_push]; omega) (by rw [Array.size_push]; omega)
      · rw [Nat.sub_eq_zero_of_le hge, List.take_zero, overwrite, overwrite, if_neg (by omega),
          if_neg (by omega)]

theorem overwrite_overwrite {capacity : Nat} {data : Array UInt8} {index : Nat} {bytes : List UInt8}
    (hindex : index ≤ data.size) (h : index + bytes.length ≤ capacity) :
    overwrite capacity (overwrite capacity data index bytes) index bytes =
      overwrite capacity data index bytes := by
  have hlength : data.toList.length = data.size := Array.length_toList
  have hfront : (data.toList.take index).length = index := List.length_take_of_le (by omega)
  have hwritten := toList_overwrite hindex h
  have hagain := toList_overwrite
    (Nat.le_trans hindex (size_le_size_overwrite capacity data index bytes)) h
  rw [List.append_assoc] at hwritten
  rw [hwritten, List.take_left' hfront, ← List.drop_drop, List.drop_left' hfront, List.drop_left' rfl,
    List.append_assoc] at hagain
  apply Array.toList_inj.mp
  rw [hagain, hwritten]

theorem toList_padTo (data : Array UInt8) (index : Nat) :
    (padTo data index).toList = data.toList ++ List.replicate (index - data.size) 0 := by
  rw [padTo]
  split
  · rename_i h
    rw [Nat.sub_eq_zero_of_le h, List.replicate_zero, List.append_nil]
  · rw [Array.toList_append, Array.toList_replicate]

@[simp] theorem length_storage (b : Buffer) : b.storage.length = b.capacity := by
  have h := b.size_le_capacity
  rw [storage, List.length_append, Array.length_toList, List.length_replicate]
  omega

theorem filled_eq_take_toList (b : Buffer) : b.filled = b.data.toList.take b.cursor := by
  simp [filled]

theorem filled_eq_take (b : Buffer) : b.filled = b.storage.take b.cursor := by
  have h := b.cursor_le_size
  rw [storage, List.take_append_of_le_length (by rwa [Array.length_toList]), filled_eq_take_toList]

theorem unconsumed_eq_drop (b : Buffer) : b.unconsumed = b.filled.drop b.head := by
  rw [unconsumed, filled, Array.toList_extract, Array.toList_extract, List.extract_eq_take_drop,
    List.extract_eq_take_drop, List.drop_zero, Nat.sub_zero, List.drop_take]

theorem filled_append_spare (b : Buffer) : b.filled ++ b.spare = b.storage := by
  rw [filled_eq_take, spare, List.take_append_drop]

theorem cursor_le_capacity (b : Buffer) : b.cursor ≤ b.capacity :=
  Nat.le_trans b.cursor_le_size b.size_le_capacity

@[simp] theorem length_filled (b : Buffer) : b.filled.length = b.size := by
  rw [filled_eq_take, List.length_take, length_storage]
  exact Nat.min_eq_left b.cursor_le_capacity

theorem head_le_length_filled (b : Buffer) : b.head ≤ b.filled.length := by
  rw [length_filled]
  exact b.head_le_cursor

@[simp] theorem length_unconsumed (b : Buffer) : b.unconsumed.length = b.pending := by
  rw [unconsumed_eq_drop, List.length_drop, length_filled]
  rfl

@[simp] theorem length_spare (b : Buffer) : b.spare.length = b.left := by
  rw [spare, List.length_drop, length_storage]
  rfl

theorem size_add_left (b : Buffer) : b.size + b.left = b.capacity := by
  have h := b.cursor_le_capacity
  simp only [size, left]
  omega

theorem spareFront_eq_take (b : Buffer) (n : Nat) : b.spareFront n = b.spare.take n := by
  have hc := b.cursor_le_size
  have hs := b.size_le_capacity
  have hlength : b.data.toList.length = b.data.size := Array.length_toList
  rw [spareFront, spare, storage, List.drop_append_of_le_length (by omega), List.take_append,
    List.take_replicate, Array.toList_extract, List.extract_eq_take_drop, Nat.add_sub_cancel_left]
  simp only [List.length_take, List.length_drop, hlength, left]
  congr 2
  omega

theorem length_spareFront (b : Buffer) {n : Nat} (h : n ≤ b.left) : (b.spareFront n).length = n := by
  rw [spareFront_eq_take, List.length_take, length_spare]
  exact Nat.min_eq_left h

@[simp] theorem capacity_writeSpare (b : Buffer) (bytes : List UInt8) :
    (b.writeSpare bytes).capacity = b.capacity := rfl

@[simp] theorem left_writeSpare (b : Buffer) (bytes : List UInt8) :
    (b.writeSpare bytes).left = b.left := rfl

theorem storage_writeSpare (b : Buffer) {bytes : List UInt8} (h : bytes.length ≤ b.left) :
    (b.writeSpare bytes).storage = b.filled ++ (bytes ++ b.spare.drop bytes.length) := by
  have hc := b.cursor_le_size
  have hs := b.size_le_capacity
  have hlength : b.data.toList.length = b.data.size := Array.length_toList
  simp only [left] at h
  have hroom : b.cursor + bytes.length ≤ b.capacity := by omega
  have hwritten := toList_overwrite hc hroom
  have hsize : (overwrite b.capacity b.data b.cursor bytes).size =
      max b.data.size (b.cursor + bytes.length) := by
    rw [← Array.length_toList, hwritten]
    simp only [List.length_append, List.length_take, List.length_drop, hlength]
    omega
  have hrest : b.spare.drop bytes.length = b.data.toList.drop (b.cursor + bytes.length) ++
      List.replicate (b.capacity - max b.data.size (b.cursor + bytes.length)) 0 := by
    rw [spare, List.drop_drop, storage, List.drop_append, List.drop_replicate, hlength]
    congr 2
    omega
  rw [hrest, filled_eq_take_toList, storage]
  simp only [writeSpare, hsize, hwritten, List.append_assoc]

theorem filled_writeSpare (b : Buffer) {bytes : List UInt8} (h : bytes.length ≤ b.left) :
    (b.writeSpare bytes).filled = b.filled := by
  rw [filled_eq_take, storage_writeSpare b h]
  exact List.take_left' (length_filled b)

theorem spare_writeSpare (b : Buffer) {bytes : List UInt8} (h : bytes.length ≤ b.left) :
    (b.writeSpare bytes).spare = bytes ++ b.spare.drop bytes.length := by
  rw [spare, storage_writeSpare b h]
  exact List.drop_left' (length_filled b)

/-- What would pass the capacity is not written. -/
theorem writeSpare_take (b : Buffer) (bytes : List UInt8) :
    b.writeSpare (bytes.take b.left) = b.writeSpare bytes := by
  simp only [writeSpare, left, overwrite_take b.cursor_le_size b.size_le_capacity]

theorem writeSpare_writeSpare (b : Buffer) {bytes : List UInt8} (h : bytes.length ≤ b.left) :
    (b.writeSpare bytes).writeSpare bytes = b.writeSpare bytes := by
  have hcursor := b.cursor_le_capacity
  rw [left] at h
  have hroom : b.cursor + bytes.length ≤ b.capacity := by omega
  simp only [writeSpare, overwrite_overwrite b.cursor_le_size hroom]

theorem spareFront_writeSpare (b : Buffer) {bytes : List UInt8} (h : bytes.length ≤ b.left) :
    (b.writeSpare bytes).spareFront bytes.length = bytes := by
  rw [spareFront_eq_take, spare_writeSpare b h, List.take_left' rfl]

@[simp] theorem capacity_skip (b : Buffer) (n : Nat) : (b.skip n).capacity = b.capacity := rfl

@[simp] theorem left_skip (b : Buffer) (n : Nat) : (b.skip n).left = b.left - n := by
  simp only [skip, left]
  omega

theorem storage_skip (b : Buffer) (n : Nat) : (b.skip n).storage = b.storage := by
  have hs := b.size_le_capacity
  simp only [storage, skip, toList_padTo, size_padTo, List.append_assoc,
    List.replicate_append_replicate]
  congr 2
  omega

theorem filled_skip (b : Buffer) (n : Nat) : (b.skip n).filled = b.filled ++ b.spare.take n := by
  rw [filled_eq_take, storage_skip, filled_eq_take, spare, ← List.take_add]
  simp only [skip]
  rcases Nat.le_total (b.cursor + n) b.capacity with hle | hle
  · rw [Nat.min_eq_left hle]
  · rw [Nat.min_eq_right hle, List.take_of_length_le (by simp), List.take_of_length_le (by simpa)]

theorem unconsumed_skip (b : Buffer) (n : Nat) :
    (b.skip n).unconsumed = b.unconsumed ++ b.spare.take n := by
  rw [unconsumed_eq_drop, unconsumed_eq_drop, filled_skip,
    ← List.drop_append_of_le_length b.head_le_length_filled]
  rfl

theorem spare_skip (b : Buffer) (n : Nat) : (b.skip n).spare = b.spare.drop n := by
  have hlength := length_storage b
  rw [spare, storage_skip, spare, List.drop_drop]
  simp only [skip]
  rcases Nat.le_total (b.cursor + n) b.capacity with hle | hle
  · rw [Nat.min_eq_left hle]
  · rw [Nat.min_eq_right hle, List.drop_eq_nil_of_le (by omega), List.drop_eq_nil_of_le (by omega)]

@[simp] theorem capacity_append (b : Buffer) (bytes : List UInt8) :
    (b.append bytes).capacity = b.capacity := by
  simp [append]

@[simp] theorem left_append (b : Buffer) (bytes : List UInt8) :
    (b.append bytes).left = b.left - bytes.length := by
  simp [append]

theorem filled_append (b : Buffer) {bytes : List UInt8} (h : bytes.length ≤ b.left) :
    (b.append bytes).filled = b.filled ++ bytes := by
  rw [append, filled_skip, filled_writeSpare b h, spare_writeSpare b h]
  simp

theorem unconsumed_append (b : Buffer) {bytes : List UInt8} (h : bytes.length ≤ b.left) :
    (b.append bytes).unconsumed = b.unconsumed ++ bytes := by
  have hhead : (b.writeSpare bytes).unconsumed = b.unconsumed := by
    rw [unconsumed_eq_drop, filled_writeSpare b h, unconsumed_eq_drop]
    rfl
  rw [append, unconsumed_skip, hhead, spare_writeSpare b h]
  simp

theorem spare_append (b : Buffer) {bytes : List UInt8} (h : bytes.length ≤ b.left) :
    (b.append bytes).spare = b.spare.drop bytes.length := by
  have hroom := size_add_left b
  have hcursor : (b.append bytes).cursor = b.size + bytes.length :=
    Nat.min_eq_left (by simp only [size] at *; omega)
  rw [spare, hcursor, append, storage_skip, storage_writeSpare b h, ← List.drop_drop,
    List.drop_left' (length_filled b), List.drop_left' rfl]

theorem extend_of_le (b : Buffer) {bytes : List UInt8} (h : bytes.length ≤ b.left) :
    b.extend bytes = (.ok (), b.append bytes) := by
  rw [extend, if_neg (by omega)]

theorem extend_of_lt (b : Buffer) {bytes : List UInt8} (h : b.left < bytes.length) :
    b.extend bytes = (.error .payloadTooLarge, b) := by
  rw [extend, if_pos h]

theorem consume_fst (b : Buffer) (n : Nat) : (b.consume n).1 = b.unconsumed.take n := by
  have h := b.head_le_cursor
  simp only [consume, unconsumed, Array.toList_extract, List.extract_eq_take_drop, List.take_take]
  congr 1
  omega

theorem unconsumed_consume (b : Buffer) (n : Nat) :
    (b.consume n).2.unconsumed = b.unconsumed.drop n := by
  have h := b.head_le_cursor
  simp only [consume, unconsumed_eq_drop, filled, List.drop_drop]
  rcases Nat.le_total n (b.cursor - b.head) with hle | hle
  · rw [Nat.min_eq_left hle]
  · have hlength := length_filled b
    simp only [filled, size] at hlength
    rw [Nat.min_eq_right hle, List.drop_eq_nil_of_le (by omega), List.drop_eq_nil_of_le (by omega)]

@[simp] theorem filled_consume (b : Buffer) (n : Nat) : (b.consume n).2.filled = b.filled := rfl

@[simp] theorem spare_consume (b : Buffer) (n : Nat) : (b.consume n).2.spare = b.spare := rfl

@[simp] theorem capacity_consume (b : Buffer) (n : Nat) :
    (b.consume n).2.capacity = b.capacity := rfl

@[simp] theorem left_consume (b : Buffer) (n : Nat) : (b.consume n).2.left = b.left := rfl

@[simp] theorem pending_consume (b : Buffer) (n : Nat) :
    (b.consume n).2.pending = b.pending - n := by
  rw [← length_unconsumed, unconsumed_consume, List.length_drop, length_unconsumed]

theorem filled_compact (b : Buffer) : b.compact.filled = b.unconsumed := by
  have hc := b.cursor_le_capacity
  have hh := b.head_le_cursor
  simp only [compact]
  split
  · rename_i hzero
    have hdrop : b.filled.drop b.head = b.filled := by rw [hzero, List.drop_zero]
    rw [unconsumed_eq_drop, hdrop]
  · have hlength := length_unconsumed b
    simp only [unconsumed, pending] at hlength
    rw [filled_eq_take_toList, toList_overwrite (Nat.zero_le _) (by omega), List.take_zero,
      List.nil_append]
    exact List.take_left' hlength

@[simp] theorem head_compact (b : Buffer) : b.compact.head = 0 := by
  simp only [compact]
  split
  · assumption
  · rfl

theorem unconsumed_compact (b : Buffer) : b.compact.unconsumed = b.unconsumed := by
  rw [unconsumed_eq_drop, filled_compact, head_compact, List.drop_zero]

@[simp] theorem capacity_compact (b : Buffer) : b.compact.capacity = b.capacity := by
  simp only [compact]
  split
  · rfl
  · rfl

@[simp] theorem pending_compact (b : Buffer) : b.compact.pending = b.pending := by
  rw [← length_unconsumed, unconsumed_compact, length_unconsumed]

theorem left_compact (b : Buffer) : b.compact.left = b.capacity - b.pending := by
  have h := size_add_left b.compact
  rw [← length_filled, filled_compact, length_unconsumed, capacity_compact] at h
  omega

theorem storage_compact (b : Buffer) :
    b.compact.storage = b.unconsumed ++ b.storage.drop b.pending := by
  have hhead := b.head_le_cursor
  have hcursor := b.cursor_le_size
  have hsize := b.size_le_capacity
  have hlength := length_unconsumed b
  have hdata : b.data.toList.length = b.data.size := Array.length_toList
  simp only [compact]
  split
  · rename_i hzero
    have hpending : b.pending = b.cursor := by rw [pending, hzero, Nat.sub_zero]
    have hfront : b.unconsumed = b.storage.take b.pending := by
      rw [unconsumed_eq_drop, hzero, List.drop_zero, filled_eq_take, hpending]
    rw [hfront, List.take_append_drop]
  · simp only [unconsumed, pending] at hlength ⊢
    have hwritten := toList_overwrite (Nat.zero_le b.data.size)
      (show 0 + (b.data.extract b.head b.cursor).toList.length ≤ b.capacity by omega)
    rw [hlength, List.take_zero, List.nil_append, Nat.zero_add] at hwritten
    have hkept : (overwrite b.capacity b.data 0 (b.data.extract b.head b.cursor).toList).size =
        b.data.size := by
      rw [← Array.length_toList, hwritten, List.length_append, hlength, List.length_drop]
      omega
    rw [storage, hkept, hwritten, storage, List.append_assoc,
      List.drop_append_of_le_length (by omega)]

theorem spare_compact (b : Buffer) : b.compact.spare = (b.filled ++ b.spare).drop b.pending := by
  have hcursor : b.compact.cursor = b.unconsumed.length := by
    rw [← filled_compact, length_filled]
    rfl
  rw [spare, hcursor, storage_compact, List.drop_left, filled_append_spare]

@[simp] theorem filled_reset (b : Buffer) : b.reset.filled = [] := by
  simp [reset, filled]

@[simp] theorem unconsumed_reset (b : Buffer) : b.reset.unconsumed = [] := by
  simp [reset, unconsumed]

theorem spare_reset (b : Buffer) : b.reset.spare = b.filled ++ b.spare := by
  rw [filled_append_spare]
  rfl

@[simp] theorem capacity_reset (b : Buffer) : b.reset.capacity = b.capacity := rfl

@[simp] theorem left_reset (b : Buffer) : b.reset.left = b.capacity := rfl

@[simp] theorem pending_reset (b : Buffer) : b.reset.pending = 0 := rfl

theorem slice?_eq_some_iff (b : Buffer) (start n : Nat) (bytes : List UInt8) :
    b.slice? start n = some bytes ↔
      start + n ≤ b.size ∧ bytes = (b.filled.drop start).take n := by
  have hslice (h : start + n ≤ b.cursor) :
      (b.data.extract start (start + n)).toList = (b.filled.drop start).take n := by
    rw [Array.toList_extract, List.extract_eq_take_drop, filled_eq_take_toList, List.drop_take,
      List.take_take, Nat.add_sub_cancel_left, Nat.min_eq_left (by omega)]
  simp only [slice?, size]
  split
  · rename_i h
    rw [hslice h]
    constructor
    · intro heq
      exact ⟨h, (Option.some.inj heq).symm⟩
    · rintro ⟨_, rfl⟩
      rfl
  · rename_i h
    constructor
    · intro heq
      simp at heq
    · rintro ⟨hle, _⟩
      exact absurd hle h

end Infrared.Buffer
