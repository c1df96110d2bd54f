import Infrared.Proofs.Answer

namespace Infrared

/-- What is written and read as one field. -/
inductive Item where
  /-- A number of `width` bytes. -/
  | number (width value : Nat)
  /-- Bytes of either kind. -/
  | text (f : Field)
  deriving DecidableEq, Repr

namespace Item

def field : Item → Field
  | number width value => .word width value
  | text f => f

/-- Whether a stream can carry an item: a number fits its width, and no field is longer than its kind allows. -/
def Fits : Item → Prop
  | number width value => width ≤ Field.Kind.fixed.limit ∧ value < Word.bound width
  | text f => f.bytes.length ≤ f.kind.limit

/-- The bytes that carry an item. A primitive is reversed as a whole on a stream that swaps, a string never. -/
def bytes (swapped : Bool) : Item → List UInt8
  | number width value => Layout.number swapped width value
  | text ⟨.fixed, word⟩ => if swapped then word.reverse else word
  | text ⟨.raw, string⟩ => string

/-- The bytes that carry items. -/
def wire (swapped : Bool) (items : List Item) : List UInt8 :=
  items.flatMap (bytes swapped)

theorem bytes_eq (swapped : Bool) (item : Item) : item.bytes swapped = item.field.wire swapped := by
  cases item with
  | number width value => exact (Layout.wire_word swapped width value).symm
  | text f =>
      obtain ⟨kind, bytes⟩ := f
      cases kind with
      | fixed => rfl
      | raw => rfl

instance (item : Item) : Decidable item.Fits :=
  match item with
  | number width value =>
    inferInstanceAs (Decidable (width ≤ Field.Kind.fixed.limit ∧ value < Word.bound width))
  | text f => inferInstanceAs (Decidable (f.bytes.length ≤ f.kind.limit))

theorem length_le_limit {item : Item} (h : item.Fits) :
    item.field.bytes.length ≤ item.field.kind.limit := by
  cases item with
  | number width value =>
      rw [field, Field.word, Word.length_bytes]
      exact h.1
  | text f => exact h

@[simp] theorem wire_cons (swapped : Bool) (item : Item) (items : List Item) :
    wire swapped (item :: items) = item.field.wire swapped ++ wire swapped items := by
  rw [wire, List.flatMap_cons, bytes_eq, wire]

@[simp] theorem wire_append (swapped : Bool) (items items' : List Item) :
    wire swapped (items ++ items') = wire swapped items ++ wire swapped items' :=
  List.flatMap_append

@[simp] theorem wire_nil (swapped : Bool) : wire swapped [] = [] := rfl

/-- Whether a position lies in the first of some items. -/
def Begins (position : Nat) : List Item → Prop
  | [] => position = 0
  | item :: _ => position ≤ item.field.bytes.length

theorem begins_zero (items : List Item) : Begins 0 items := by
  cases items with
  | nil => rfl
  | cons item items => exact Nat.zero_le _

theorem drop_wire_cons {swapped : Bool} {item : Item} {items : List Item} {position : Nat}
    (h : Begins position (item :: items)) :
    (wire swapped (item :: items)).drop position =
      (item.field.wire swapped).drop position ++ wire swapped items := by
  rw [wire_cons, List.drop_append_of_le_length]
  rw [Field.length_wire]
  exact h

end Item

/-- Whether a writer `s` becomes `t` when items are written to it one after the other, the chunks being what
was drained on the way. -/
inductive Written : FieldStream → List Item → List (List UInt8) → FieldStream → Prop where
  | nil (s : FieldStream) : Written s [] [] s
  | whole {s t u : FieldStream} {item : Item} {items : List Item} {chunks : List (List UInt8)}
      (hwrite : s.write item.field = (.ok true, t)) (hrest : Written t items chunks u) :
    Written s (item :: items) chunks u
  /-- A call that leaves its item incomplete is made again after the buffer was drained. -/
  | part {s t u : FieldStream} {item : Item} {items : List Item} {chunks : List (List UInt8)}
      (hwrite : s.write item.field = (.ok false, t)) (hrest : Written t.drain (item :: items) chunks u) :
    Written s (item :: items) (t.data :: chunks) u

namespace FieldStream

variable {s t : FieldStream}

theorem give_of_write {f : Field} {done : Bool} (h : s.write f = (.ok done, t)) :
    s.side = .writer ∧ s.give f = (done, t) := by
  rw [write] at h
  split at h
  · simp at h
  · rename_i hside
    split at h
    · simp at h
    · simp only [Prod.mk.injEq, Except.ok.injEq] at h
      exact ⟨by simpa using hside, Prod.ext h.1 h.2⟩

/-- A call completes its field exactly if there is room for the rest of it. -/
theorem le_left_iff_of_write {f : Field} {done : Bool} (h : s.write f = (.ok done, t))
    (hposition : s.position ≤ f.bytes.length) :
    done = true ↔ ((f.wire s.swapped).drop s.position).length ≤ s.left := by
  obtain ⟨hside, hgive⟩ := give_of_write h
  rcases Nat.lt_or_ge s.left ((f.wire s.swapped).drop s.position).length with hlt | hle
  · have hdone : done = false := by simpa [hgive] using (give_of_lt hside hlt).1
    rw [hdone]
    exact iff_of_false Bool.false_ne_true (Nat.not_le_of_lt hlt)
  · have hdone : done = true := by simpa [hgive] using (give_of_le hside hposition hle).1
    exact iff_of_true hdone hle

theorem length_data (s : FieldStream) : s.data.length + s.left = s.capacity := by
  rw [data, Buffer.length_filled]
  exact s.buffer.size_add_left

/-- A field that does not fit fills the buffer. -/
theorem length_data_give_of_lt {f : Field} (hside : s.side = .writer)
    (hlt : s.left < ((f.wire s.swapped).drop s.position).length) :
    (s.give f).2.data.length = s.capacity := by
  have hlength := s.length_data
  rw [(give_of_lt hside hlt).2.1, List.length_append, List.length_take]
  omega

end FieldStream

variable {s t : FieldStream} {items : List Item} {chunks : List (List UInt8)}

/-- What comes out is what went in: what the buffer held and the items, from the position on. -/
theorem Written.flatten_append_data (h : Written s items chunks t)
    (hbegins : Item.Begins s.position items) :
    chunks.flatten ++ t.data = s.data ++ (Item.wire s.swapped items).drop s.position ∧
      t.position = 0 ∧ ∀ chunk ∈ chunks, chunk.length = s.capacity := by
  induction h with
  | nil s => exact ⟨by simp, hbegins, by simp⟩
  | @whole s t u item items chunks hwrite hrest ih =>
      obtain ⟨hside, hgive⟩ := FieldStream.give_of_write hwrite
      have hle := (FieldStream.le_left_iff_of_write hwrite hbegins).mp rfl
      obtain ⟨-, hdata, hposition, -⟩ := FieldStream.give_of_le hside hbegins hle
      have hcapacity := s.capacity_give item.field
      have hswapped := s.swapped_give item.field
      rw [hgive] at hdata hposition hcapacity hswapped
      dsimp only at hdata hposition hcapacity hswapped
      obtain ⟨hflatten, hdone, hchunks⟩ := ih (hposition ▸ Item.begins_zero items)
      rw [hposition, List.drop_zero, hdata, hswapped] at hflatten
      rw [hcapacity] at hchunks
      rw [Item.drop_wire_cons hbegins, hflatten, List.append_assoc]
      exact ⟨rfl, hdone, hchunks⟩
  | @part s t u item items chunks hwrite hrest ih =>
      obtain ⟨hside, hgive⟩ := FieldStream.give_of_write hwrite
      have hlt : s.left < ((item.field.wire s.swapped).drop s.position).length :=
        Nat.lt_of_not_le (mt (FieldStream.le_left_iff_of_write hwrite hbegins).mpr (by simp))
      obtain ⟨-, hdata, hposition⟩ := FieldStream.give_of_lt hside hlt
      have hlength := FieldStream.length_data_give_of_lt hside hlt
      have hcapacity := s.capacity_give item.field
      have hswapped := s.swapped_give item.field
      rw [hgive] at hdata hposition hlength hcapacity hswapped
      dsimp only at hdata hposition hlength hcapacity hswapped
      have hdrain : t.drain.position = s.position + s.left := hposition
      have hbegins' : Item.Begins t.drain.position (item :: items) := by
        rw [List.length_drop, Field.length_wire] at hlt
        rw [hdrain]
        exact (by omega : s.position + s.left ≤ item.field.bytes.length)
      obtain ⟨hflatten, hdone, hchunks⟩ := ih hbegins'
      have hempty : t.drain.data = [] := Buffer.filled_reset _
      refine ⟨?_, hdone, ?_⟩
      · rw [List.flatten_cons, List.append_assoc, hflatten, hempty, List.nil_append, hdata, hdrain,
          show t.drain.swapped = s.swapped from hswapped, ← List.drop_drop, List.append_assoc,
          Item.drop_wire_cons hbegins, ← List.take_append_of_le_length (Nat.le_of_lt hlt),
          List.take_append_drop]
      · rw [List.forall_mem_cons]
        exact ⟨hlength, fun chunk hchunk => (hchunks chunk hchunk).trans hcapacity⟩

/-- An item is complete at last: each further call adds a byte at least, but for one to a full buffer. -/
theorem exists_written_cons {item : Item} (hitem : item.Fits)
    (hrest : ∀ t : FieldStream, t.side = .writer → t.capacity = s.capacity → t.position = 0 →
      ∃ chunks u, Written t items chunks u)
    (hside : s.side = .writer) (hcapacity : 0 < s.capacity)
    (hbegins : s.position ≤ item.field.bytes.length) :
    ∃ chunks u, Written s (item :: items) chunks u := by
  have hlimit := item.length_le_limit hitem
  induction hn : 2 * (item.field.bytes.length - s.position) + (if s.left = 0 then 1 else 0)
    using Nat.strongRecOn generalizing s with
  | ind n ih =>
      have hwrite := FieldStream.write_of_length_le hside hlimit
      have hsame := s.capacity_give item.field
      have hlength : ((item.field.wire s.swapped).drop s.position).length =
          item.field.bytes.length - s.position := by
        rw [List.length_drop, Field.length_wire]
      rcases Nat.lt_or_ge s.left ((item.field.wire s.swapped).drop s.position).length with hlt | hle
      · obtain ⟨hdone, -, hposition⟩ := FieldStream.give_of_lt hside hlt
        rw [hdone] at hwrite
        have hposition' : (s.give item.field).2.drain.position = s.position + s.left := hposition
        have hleft : (s.give item.field).2.drain.left = s.capacity := hsame
        have hfewer : 2 * (item.field.bytes.length - (s.give item.field).2.drain.position) +
            (if (s.give item.field).2.drain.left = 0 then 1 else 0) < n := by
          rw [hposition', hleft, if_neg (by omega), ← hn]
          split
          · omega
          · omega
        obtain ⟨chunks, u, hwritten⟩ := ih _ hfewer (s := (s.give item.field).2.drain)
          (fun t ht hsize => hrest t ht (hsize.trans hsame)) hside (hsame ▸ hcapacity)
          (by rw [hposition']; omega) rfl
        exact ⟨_, u, .part hwrite hwritten⟩
      · obtain ⟨hdone, -, hposition, -⟩ := FieldStream.give_of_le hside hbegins hle
        rw [hdone] at hwrite
        obtain ⟨chunks, u, hwritten⟩ := hrest (s.give item.field).2 hside hsame hposition
        exact ⟨chunks, u, .whole hwrite hwritten⟩

theorem exists_written (hitems : ∀ item ∈ items, item.Fits) (hside : s.side = .writer)
    (hcapacity : 0 < s.capacity) (hposition : s.position = 0) :
    ∃ chunks t, Written s items chunks t := by
  induction items generalizing s with
  | nil => exact ⟨[], s, .nil s⟩
  | cons item items ih =>
      rw [List.forall_mem_cons] at hitems
      refine exists_written_cons hitems.1 ?_ hside hcapacity (hposition ▸ Nat.zero_le _)
      intro t ht hsize hzero
      exact ih hitems.2 ht (hsize ▸ hcapacity) hzero

end Infrared
