import Infrared.Bench.Pump

namespace Infrared.Bench

variable {length : Nat}

theorem cut_of_ne_nil (h : 0 < length) {bytes : List UInt8} (hbytes : bytes ≠ []) :
    cut length bytes = bytes.take length :: cut length (bytes.drop length) := by
  cases bytes with
  | nil => exact absurd rfl hbytes
  | cons byte rest =>
      obtain ⟨n, rfl⟩ : ∃ n, length = n + 1 := ⟨length - 1, by omega⟩
      rw [cut, List.take_succ_cons, List.drop_succ_cons, Nat.add_sub_cancel]

theorem cut_induction (h : 0 < length) {motive : List UInt8 → Prop} (nil : motive [])
    (piece : ∀ bytes, bytes ≠ [] → motive (bytes.drop length) → motive bytes) (bytes : List UInt8) :
    motive bytes := by
  induction hn : bytes.length using Nat.strongRecOn generalizing bytes with
  | ind n ih =>
      by_cases hbytes : bytes = []
      · rw [hbytes]
        exact nil
      · have hpos := List.length_pos_iff.mpr hbytes
        exact piece bytes hbytes (ih _ (by rw [List.length_drop]; omega) _ rfl)

theorem flatten_cut (h : 0 < length) (bytes : List UInt8) : (cut length bytes).flatten = bytes := by
  induction bytes using cut_induction h with
  | nil => simp [cut]
  | piece bytes hbytes ih =>
      rw [cut_of_ne_nil h hbytes, List.flatten_cons, ih, List.take_append_drop]

theorem getElem?_cut (h : 0 < length) (bytes : List UInt8) (index : Nat) :
    (cut length bytes)[index]? =
      if index * length < bytes.length then some ((bytes.drop (index * length)).take length)
      else none := by
  induction bytes using cut_induction h generalizing index with
  | nil => simp [cut]
  | piece bytes hbytes ih =>
      have hpos := List.length_pos_iff.mpr hbytes
      rw [cut_of_ne_nil h hbytes]
      cases index with
      | zero =>
          rw [List.getElem?_cons_zero, Nat.zero_mul, List.drop_zero, if_pos hpos]
      | succ index =>
          rw [List.getElem?_cons_succ, ih, List.length_drop, List.drop_drop, Nat.succ_mul,
            Nat.add_comm length]
          by_cases hlt : index * length + length < bytes.length
          · rw [if_pos hlt, if_pos (by omega)]
          · rw [if_neg hlt, if_neg (by omega)]

theorem length_cut (h : 0 < length) (bytes : List UInt8) :
    (cut length bytes).length = (bytes.length + length - 1) / length := by
  induction bytes using cut_induction h with
  | nil =>
      rw [cut, List.length_nil, List.length_nil, Nat.zero_add,
        Nat.div_eq_of_lt (Nat.sub_lt h Nat.one_pos)]
  | piece bytes hbytes ih =>
      have hpos := List.length_pos_iff.mpr hbytes
      rw [cut_of_ne_nil h hbytes, List.length_cons, ih, List.length_drop]
      by_cases hle : bytes.length ≤ length
      · have hone : (bytes.length + length - 1) / length = 1 := by
          apply Nat.div_eq_of_lt_le
          · omega
          · omega
        rw [Nat.sub_eq_zero_of_le hle, Nat.zero_add, Nat.div_eq_of_lt (Nat.sub_lt h Nat.one_pos), hone]
      · have hsum : bytes.length + length - 1 = bytes.length - length + length - 1 + length := by omega
        rw [hsum, Nat.add_div_right _ h]

theorem take_cut_succ (h : 0 < length) {bytes : List UInt8} {index : Nat}
    (hindex : index * length < bytes.length) :
    (cut length bytes).take (index + 1) =
      (cut length bytes).take index ++ [(bytes.drop (index * length)).take length] := by
  have hget := getElem?_cut h bytes index
  rw [if_pos hindex] at hget
  rw [List.take_add_one, hget]
  rfl

theorem take_cut_of_le (h : 0 < length) {bytes : List UInt8} {index : Nat}
    (hindex : bytes.length ≤ index * length) :
    (cut length bytes).take index = cut length bytes ∧ (cut length bytes).length ≤ index := by
  have hget := getElem?_cut h bytes index
  rw [if_neg (Nat.not_lt.mpr hindex), List.getElem?_eq_none_iff] at hget
  exact ⟨List.take_of_length_le hget, hget⟩

theorem lt_length_cut (h : 0 < length) {bytes : List UInt8} {index : Nat}
    (hindex : index * length < bytes.length) : index < (cut length bytes).length := by
  have hget := getElem?_cut h bytes index
  rw [if_pos hindex] at hget
  exact (List.getElem?_eq_some_iff.mp hget).1

/-- Whether pieces joined are the given bytes, and all are full except for the last one, which is not empty. -/
structure Cuts (length : Nat) (bytes : List UInt8) (pieces : List (List UInt8)) : Prop where
  flatten_eq : pieces.flatten = bytes
  pos_and_le : ∀ piece ∈ pieces, 0 < piece.length ∧ piece.length ≤ length
  length_eq : ∀ piece ∈ pieces.dropLast, piece.length = length

theorem cuts_cut (h : 0 < length) (bytes : List UInt8) : Cuts length bytes (cut length bytes) := by
  refine ⟨flatten_cut h bytes, ?_, ?_⟩
  · intro piece hpiece
    obtain ⟨index, hindex⟩ := List.mem_iff_getElem?.mp hpiece
    rw [getElem?_cut h] at hindex
    split at hindex
    · rename_i hlt
      rw [Option.some.injEq] at hindex
      rw [← hindex, List.length_take, List.length_drop]
      omega
    · simp at hindex
  · intro piece hpiece
    obtain ⟨index, hindex⟩ := List.mem_iff_getElem?.mp hpiece
    -- A piece that another one follows is full.
    have hnext : index + 1 < (cut length bytes).length := by
      have hlt := (List.getElem?_eq_some_iff.mp hindex).1
      rw [List.length_dropLast] at hlt
      omega
    have hmore := getElem?_cut h bytes (index + 1)
    rw [List.getElem?_eq_getElem hnext] at hmore
    rw [List.getElem?_dropLast, if_pos (by omega), getElem?_cut h] at hindex
    split at hmore
    · rename_i hlt
      rw [Nat.succ_mul] at hlt
      rw [if_pos (by omega), Option.some.injEq] at hindex
      rw [← hindex, List.length_take, List.length_drop]
      omega
    · simp at hmore

end Infrared.Bench
