import Infrared.Field.Stream.Lemmas
import Infrared.Proofs.Request.Grammar
import Infrared.Reply

namespace Infrared

/-- A reply with everything that belongs to it. -/
inductive Answer where
  | sent
  | captured (pulses : List UInt32)
  | configured
  deriving DecidableEq, Repr

namespace Answer

def kind : Answer → Packet.Kind
  | sent => .sendResponse
  | captured _ => .receiveResponse
  | configured => .configResponse

def body (width : PulseWidth) : Answer → List Field
  | captured pulses =>
    .u32 0 :: .u16 pulses.length :: pulses.map (Request.Content.pulseField width)
  | _ => []

def bodyLength (width : PulseWidth) : Answer → Nat
  | captured pulses => Packet.pulsesHeadLength + pulses.length * width.bytes
  | _ => 0

def fields (width : PulseWidth) (answer : Answer) : List Field :=
  .u8 answer.kind.code.toNat :: .u16 (answer.bodyLength width) :: answer.body width

/-- The bytes of a reply on a connection: its type, the length of its body, and the body. -/
def wire (c : Config) : Answer → List UInt8
  | sent => 1 :: Layout.number c.swapped 2 0
  | captured pulses =>
    3 :: (Layout.number c.swapped 2 (6 + pulses.length * c.pulseWidth.bytes) ++
      (Layout.number c.swapped 4 0 ++ (Layout.number c.swapped 2 pulses.length ++
        pulses.flatMap (Layout.pulse c.swapped c.pulseWidth))))
  | configured => 5 :: Layout.number c.swapped 2 0

/-- The bytes of a reply are those of its fields. -/
theorem wire_eq_flatMap (c : Config) (answer : Answer) :
    answer.wire c = (answer.fields c.pulseWidth).flatMap (Field.wire c.swapped) := by
  cases answer with
  | captured pulses =>
      simp only [fields, body, List.flatMap_cons, Request.Content.wire_pulses, Field.u8, Field.u16,
        Field.u32, Layout.wire_word, Layout.number_one]
      rfl
  | _ =>
      simp only [fields, body, List.flatMap_cons, List.flatMap_nil, List.append_nil, Field.u8, Field.u16,
        Layout.wire_word, Layout.number_one]
      rfl

theorem length_le_limit_of_mem_fields {width : PulseWidth} {answer : Answer} {f : Field}
    (h : f ∈ answer.fields width) : 0 < f.bytes.length ∧ f.bytes.length ≤ f.kind.limit := by
  have hword (n value : Nat) (hpos : 0 < n) (hle : n ≤ 8) :
      0 < (Field.word n value).bytes.length ∧
        (Field.word n value).bytes.length ≤ (Field.word n value).kind.limit := by
    simp only [Field.word, Word.length_bytes, Field.Kind.limit]
    exact ⟨hpos, hle⟩
  rw [fields, List.mem_cons, List.mem_cons] at h
  rcases h with rfl | rfl | h
  · exact hword 1 _ (by decide) (by decide)
  · exact hword 2 _ (by decide) (by decide)
  · cases answer with
    | captured pulses =>
        rw [body, List.mem_cons, List.mem_cons, List.mem_map] at h
        rcases h with rfl | rfl | ⟨pulse, -, rfl⟩
        · exact hword 4 _ (by decide) (by decide)
        · exact hword 2 _ (by decide) (by decide)
        · simp only [Request.Content.pulseField, PulseWidth.length_encode, Field.Kind.limit]
          exact ⟨width.bytes_pos, by cases width <;> decide⟩
    | sent => simp [body] at h
    | configured => simp [body] at h

theorem length_wire (c : Config) (answer : Answer) :
    (answer.wire c).length = Packet.headLength + answer.bodyLength c.pulseWidth := by
  have hbody : ((answer.body c.pulseWidth).flatMap (Field.wire c.swapped)).length =
      answer.bodyLength c.pulseWidth := by
    cases answer with
    | sent => rfl
    | configured => rfl
    | captured pulses =>
        simp only [body, List.flatMap_cons, List.length_append, Field.u32, Field.u16,
          Field.length_wire_word, Request.Content.length_wire_pulses, bodyLength,
          Packet.pulsesHeadLength]
        omega
  simp only [wire_eq_flatMap, fields, List.flatMap_cons, List.length_append, hbody, Field.u8, Field.u16,
    Field.length_wire_word, Packet.headLength]
  omega

theorem wire_ne_nil (c : Config) (answer : Answer) : answer.wire c ≠ [] := by
  rw [wire_eq_flatMap, fields, List.flatMap_cons, Field.wire_u8]
  simp

end Answer

namespace PulseWidth

theorem encode_decode (w : PulseWidth) {bytes : List UInt8} (h : bytes.length = w.bytes) :
    w.encode (w.decode bytes) = bytes := by
  obtain ⟨pulse, hle, rfl⟩ := w.exists_encode_eq h
  have hdecode := w.decode_encode_append pulse []
  rw [List.append_nil, saturate, if_pos hle] at hdecode
  rw [hdecode]

theorem decode_take (w : PulseWidth) (bytes : List UInt8) :
    w.decode (bytes.take w.bytes) = w.decode bytes := by
  rw [decode, decode, List.take_take, Nat.min_self]

@[simp] theorem length_decodeMany (w : PulseWidth) (count : Nat) (bytes : List UInt8) :
    (w.decodeMany count bytes).length = count := by
  induction count generalizing bytes with
  | zero => rfl
  | succ count ih => rw [decodeMany, List.length_cons, ih]

theorem getElem?_decodeMany (w : PulseWidth) {count index : Nat} (h : index < count)
    (bytes : List UInt8) :
    (w.decodeMany count bytes)[index]? = some (w.decode (bytes.drop (index * w.bytes))) := by
  induction count generalizing bytes index with
  | zero => omega
  | succ count ih =>
      cases index with
      | zero => simp [decodeMany]
      | succ index =>
          rw [decodeMany, List.getElem?_cons_succ, ih (by omega), List.drop_drop, Nat.succ_mul,
            Nat.add_comm w.bytes]

theorem length_flatMap_encode (w : PulseWidth) (pulses : List UInt32) :
    (pulses.flatMap w.encode).length = pulses.length * w.bytes := by
  induction pulses with
  | nil => rw [List.flatMap_nil, List.length_nil, List.length_nil, Nat.zero_mul]
  | cons pulse pulses ih =>
      rw [List.flatMap_cons, List.length_append, ih, length_encode, List.length_cons, Nat.succ_mul,
        Nat.add_comm]

theorem decodeMany_flatMap_encode (w : PulseWidth) (pulses : List UInt32) :
    w.decodeMany pulses.length (pulses.flatMap w.encode) = pulses.map w.saturate := by
  induction pulses with
  | nil => rfl
  | cons pulse pulses ih =>
      rw [List.flatMap_cons, List.length_cons, decodeMany, decode_encode_append,
        List.drop_left' (w.length_encode pulse), ih, List.map_cons]

theorem saturate_of_le {w : PulseWidth} {pulse : UInt32} (h : pulse ≤ w.longest) :
    w.saturate pulse = pulse := by
  rw [saturate, if_pos h]

theorem map_saturate_of_le {w : PulseWidth} {pulses : List UInt32}
    (h : ∀ pulse ∈ pulses, pulse ≤ w.longest) : pulses.map w.saturate = pulses := by
  rw [List.map_congr_left fun pulse hpulse => saturate_of_le (h pulse hpulse)]
  exact List.map_id' pulses

end PulseWidth

theorem Station.durations_flatMap_encode (s : Station) {pulses : List UInt32}
    (h : pulses.length ≤ 65535) :
    s.durations (pulses.flatMap s.pulseWidth.encode) = pulses.map s.pulseWidth.saturate := by
  have hcount : s.capacity (pulses.flatMap s.pulseWidth.encode).length = pulses.length := by
    rw [capacity, PulseWidth.capacity, PulseWidth.length_flatMap_encode,
      Nat.mul_div_cancel _ s.pulseWidth.bytes_pos]
    omega
  rw [durations, hcount, PulseWidth.decodeMany_flatMap_encode]

namespace Reply

/-- What a reply says, if the scratch store holds the given bytes. -/
def answer (width : PulseWidth) (kept : List UInt8) : Reply → Answer
  | sent => .sent
  | captured count => .captured (width.decodeMany count kept)
  | configured _ _ _ => .configured

/-- Whether the scratch store has the pulses of a reply, and they fit a packet. -/
def Backed (width : PulseWidth) (kept : List UInt8) : Reply → Prop
  | captured count =>
    count * width.bytes = kept.length ∧
      Packet.pulsesHeadLength + count * width.bytes ≤ Packet.lengthLimit
  | _ => True

variable {width : PulseWidth} {scratch : Buffer} {r : Reply}

theorem length_fields (width : PulseWidth) (kept : List UInt8) (r : Reply) :
    ((r.answer width kept).fields width).length = r.fieldCount := by
  cases r with
  | captured count =>
      simp only [answer, Answer.fields, Answer.body, List.length_cons, List.length_map,
        PulseWidth.length_decodeMany, fieldCount]
      omega
  | sent => rfl
  | configured name ssid password => rfl

theorem field_eq (h : r.Backed width scratch.filled) {index : Nat} (hindex : index < r.fieldCount) :
    ∃ f, r.field width scratch index = .ok f ∧
      ((r.answer width scratch.filled).fields width)[index]? = some f := by
  match index, r with
  | 0, .sent => exact ⟨_, rfl, rfl⟩
  | 0, .captured count => exact ⟨_, rfl, rfl⟩
  | 0, .configured _ _ _ => exact ⟨_, rfl, rfl⟩
  | 1, .sent => exact ⟨_, rfl, rfl⟩
  | 1, .configured _ _ _ => exact ⟨_, rfl, rfl⟩
  | 1, .captured count =>
      refine ⟨.u16 (Packet.pulsesHeadLength + count * width.bytes), ?_, ?_⟩
      · simp only [field, bodyLength, Packet.pulsesBodyLength, Packet.checkLength]
        rw [if_pos h.2]
      · simp [answer, Answer.fields, Answer.bodyLength]
  | 2, .captured count => exact ⟨_, rfl, rfl⟩
  | 3, .captured count =>
      refine ⟨.u16 count, rfl, ?_⟩
      simp [answer, Answer.fields, Answer.body]
  | index + 4, .captured count =>
      have hlt : index < count := by
        simp only [fieldCount] at hindex
        omega
      have hend : (index + 1) * width.bytes ≤ count * width.bytes := Nat.mul_le_mul_right _ hlt
      rw [h.1, Buffer.length_filled, Nat.succ_mul] at hend
      have hslice := (scratch.slice?_eq_some_iff (index * width.bytes) width.bytes _).mpr ⟨hend, rfl⟩
      have hlength : ((scratch.filled.drop (index * width.bytes)).take width.bytes).length =
          width.bytes := by
        rw [List.length_take, List.length_drop, Buffer.length_filled]
        omega
      refine ⟨⟨.fixed, (scratch.filled.drop (index * width.bytes)).take width.bytes⟩, ?_, ?_⟩
      · simp only [field, Nat.add_sub_cancel, hslice]
      · have hpulse := width.encode_decode hlength
        rw [PulseWidth.decode_take] at hpulse
        simp only [answer, Answer.fields, Answer.body, List.getElem?_cons_succ, List.getElem?_map,
          width.getElem?_decodeMany hlt, Option.map_some, Request.Content.pulseField, hpulse]

end Reply

namespace FieldStream

variable {s : FieldStream} {f : Field}

theorem give_of_le (hside : s.side = .writer) (hposition : s.position ≤ f.bytes.length)
    (hle : ((f.wire s.swapped).drop s.position).length ≤ s.left) :
    (s.give f).1 = true ∧ (s.give f).2.data = s.data ++ (f.wire s.swapped).drop s.position ∧
      (s.give f).2.position = 0 ∧
      (s.give f).2.left = s.left - ((f.wire s.swapped).drop s.position).length := by
  rw [List.length_drop, Field.length_wire] at hle
  have havailable : s.available f.bytes.length = f.bytes.length - s.position := by
    rw [available, hside]
    exact Nat.min_eq_left hle
  have hdone : (s.give f).1 = true := by
    rw [give_eq_true_iff, havailable]
    omega
  have hpiece : piece s.swapped f s.position (f.bytes.length - s.position) =
      (f.wire s.swapped).drop s.position := by
    have hlength : ((f.wire s.swapped).drop s.position).length = f.bytes.length - s.position := by
      rw [List.length_drop, Field.length_wire]
    rw [piece, List.take_of_length_le (Nat.le_of_eq hlength)]
  refine ⟨hdone, ?_, ?_, ?_⟩
  · rw [data_give hside, havailable, hpiece]
  · rw [position_give, hdone]
    rfl
  · rw [left_give, havailable, hpiece]

theorem give_of_lt (hside : s.side = .writer)
    (hlt : s.left < ((f.wire s.swapped).drop s.position).length) :
    (s.give f).1 = false ∧
      (s.give f).2.data = s.data ++ ((f.wire s.swapped).drop s.position).take s.left ∧
      (s.give f).2.position = s.position + s.left := by
  rw [List.length_drop, Field.length_wire] at hlt
  have havailable : s.available f.bytes.length = s.left := by
    rw [available, hside]
    exact Nat.min_eq_right (Nat.le_of_lt hlt)
  have hdone : (s.give f).1 = false := by
    rw [Bool.eq_false_iff, Ne, give_eq_true_iff, havailable]
    omega
  refine ⟨hdone, ?_, ?_⟩
  · rw [data_give hside, havailable, piece]
  · rw [position_give, hdone, havailable]
    rfl

end FieldStream

/-- Whether the given bytes are those of the fields from an index on, less some of the first one. -/
structure Unsent (swapped : Bool) (fields : List Field) (next position : Nat) (rest : List UInt8) :
    Prop where
  position_le : ∀ f, fields[next]? = some f → position ≤ f.bytes.length
  rest_eq : rest = ((fields.drop next).flatMap (Field.wire swapped)).drop position

theorem Unsent.rest_eq_append {swapped : Bool} {fields : List Field} {next position : Nat}
    {rest : List UInt8} {f : Field} (h : Unsent swapped fields next position rest)
    (hf : fields[next]? = some f) :
    rest = (f.wire swapped).drop position ++
      (fields.drop (next + 1)).flatMap (Field.wire swapped) := by
  obtain ⟨hlt, rfl⟩ := List.getElem?_eq_some_iff.mp hf
  rw [h.rest_eq, List.drop_eq_getElem_cons hlt, List.flatMap_cons,
    List.drop_append_of_le_length (by rw [Field.length_wire]; exact h.position_le _ hf)]

/-- A writer that differs from another at most in what was written to it. -/
structure FieldStream.Continues (s t : FieldStream) : Prop where
  side_eq : t.side = s.side
  swapped_eq : t.swapped = s.swapped
  capacity_eq : t.capacity = s.capacity

theorem Reply.encode_eq {width : PulseWidth} {scratch : Buffer} {r : Reply}
    (h : r.Backed width scratch.filled) {next : Nat} {out : FieldStream} (hside : out.side = .writer)
    {rest : List UInt8}
    (hrest : Unsent out.swapped ((r.answer width scratch.filled).fields width) next out.position rest) :
    ∃ next' out', r.encode width scratch next out =
        (.ok (decide (rest.length ≤ out.left)), next', out') ∧ out.Continues out' ∧
      out'.data = out.data ++ rest.take out.left ∧
      Unsent out.swapped ((r.answer width scratch.filled).fields width) next' out'.position
        (rest.drop out.left) := by
  -- The induction is on the fields that are left; each goes out whole, or fills the room and stays the next.
  induction hn : r.fieldCount - next generalizing next out rest with
  | zero =>
      have hlength := length_fields width scratch.filled r
      have hdrop : ((r.answer width scratch.filled).fields width).drop next = [] :=
        List.drop_eq_nil_of_le (by omega)
      have hnil : rest = [] := by
        rw [hrest.rest_eq, hdrop, List.flatMap_nil, List.drop_nil]
      subst hnil
      refine ⟨next, out, ?_, ⟨rfl, rfl, rfl⟩, by simp, by simpa using hrest⟩
      rw [encode, if_neg (by omega)]
      simp
  | succ n ih =>
      have hnext : next < r.fieldCount := by omega
      obtain ⟨f, hfield, hf⟩ := field_eq h hnext
      obtain ⟨hpos, hlimit⟩ := Answer.length_le_limit_of_mem_fields (List.mem_of_getElem? hf)
      have happend := hrest.rest_eq_append hf
      have hwrite := FieldStream.write_of_length_le hside hlimit
      rw [encode, if_pos (by omega), hfield]
      dsimp only
      rw [hwrite]
      rcases Nat.lt_or_ge out.left ((f.wire out.swapped).drop out.position).length with hlt | hle
      · obtain ⟨hdone, hdata, hposition⟩ := FieldStream.give_of_lt hside hlt
        rw [hdone]
        refine ⟨next, (out.give f).2, ?_, ⟨rfl, rfl, FieldStream.capacity_give _ _⟩, ?_, ?_, ?_⟩
        · rw [decide_eq_false (by rw [happend, List.length_append]; omega)]
        · rw [hdata, happend, List.take_append_of_le_length (Nat.le_of_lt hlt)]
        · intro g hg
          rw [hf, Option.some.injEq] at hg
          subst hg
          rw [List.length_drop, Field.length_wire] at hlt
          omega
        · rw [hrest.rest_eq, List.drop_drop, hposition]
      · obtain ⟨hdone, hdata, hposition, hleft⟩ :=
          FieldStream.give_of_le hside (hrest.position_le f hf) hle
        rw [hdone]
        have hrest' : Unsent (out.give f).2.swapped ((r.answer width scratch.filled).fields width)
            (next + 1) (out.give f).2.position
            (((r.answer width scratch.filled).fields width).drop (next + 1) |>.flatMap
              (Field.wire out.swapped)) := by
          rw [hposition]
          exact ⟨fun _ _ => Nat.zero_le _, rfl⟩
        have hside' : (out.give f).2.side = .writer := hside
        obtain ⟨next', out', hencode, hsame, hdata', hunsent⟩ := ih hside' hrest' (by omega)
        refine ⟨next', out', ?_, ?_, ?_, ?_⟩
        · dsimp only
          rw [hencode, hleft]
          congr 2
          rw [happend, List.length_append]
          exact decide_eq_decide.mpr (by omega)
        · exact ⟨hsame.side_eq, hsame.swapped_eq,
            hsame.capacity_eq.trans (FieldStream.capacity_give _ _)⟩
        · rw [hdata', hdata, hleft, happend, List.append_assoc, List.take_append,
            List.take_of_length_le hle]
        · rw [happend, List.drop_append, List.drop_eq_nil_of_le hle, List.nil_append, ← hleft]
          exact hunsent

end Infrared
