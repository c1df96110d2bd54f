import Mathlib.Data.List.Forall2
import Infrared.Proofs.FieldPieces
import Infrared.Proofs.Items.Writing

/-!
Items that are read from the bytes that carry them. The bytes come in pieces, and between two pieces the
reader may make any number of calls. Main statements: a call completes its item exactly if all bytes of it
have been fed (`Reader.Tracks.exists_read`); what was written at one capacity is read back at any other
(`items_round_trip`).
-/

namespace Infrared

/-- What a stream is asked for: a number of `width` bytes, or bytes laid over a destination that keeps them
from one call to the next. -/
inductive Ask where
  | number (width : Nat)
  | text (dest : Field)
  deriving DecidableEq, Repr

namespace Ask

/-- Whether an ask is one for an item, whatever its destination holds. -/
def For : Ask → Item → Prop
  | number width, .number width' _ => width = width'
  | text dest, .text f => dest.kind = f.kind ∧ dest.bytes.length = f.bytes.length
  | _, _ => False

/-- Makes the call: it comes to the item, or to what has to be asked again. -/
def call (s : FieldStream) : Ask → Except Fault (Item ⊕ Ask) × FieldStream
  | number width =>
    match s.readWord width with
    | (.ok (some value), s) => (.ok (.inl (.number width value)), s)
    | (.ok none, s) => (.ok (.inr (number width)), s)
    | (.error fault, s) => (.error fault, s)
  | text dest =>
    match s.read dest with
    | (.ok (true, f), s) => (.ok (.inl (.text f)), s)
    | (.ok (false, f), s) => (.ok (.inr (text f)), s)
    | (.error fault, s) => (.error fault, s)

/-- Where the bytes of an item are kept until it is complete. -/
def dest (s : FieldStream) : Ask → Field
  | number width => ⟨.fixed, s.held.take width⟩
  | text dest => dest

variable {s : FieldStream} {ask : Ask} {item : Item} {taken : List UInt8}

theorem call_of_isPrefix (hfor : ask.For item) (hitem : item.Fits) (hside : s.side = .reader)
    (hposition : s.position = taken.length) (hbegin : taken <+: (ask.dest s).wire s.swapped)
    (hwire : item.field.wire s.swapped <+: taken ++ s.buffer.unconsumed) :
    ∃ t, ask.call s = (.ok (.inl item), t) ∧ s.Continues t ∧ t.position = 0 ∧
      item.field.wire s.swapped ++ t.buffer.unconsumed = taken ++ s.buffer.unconsumed := by
  have hlength := hwire.length_le
  have hfront := List.prefix_iff_eq_take.mp hwire
  rw [Field.length_wire] at hlength hfront
  cases ask with
  | number width =>
      cases item with
      | text f => exact absurd hfor id
      | number width' value =>
          obtain rfl : width = width' := hfor
          have hwidth : (Item.number width value).field.bytes.length = width := Word.length_bytes _ _
          rw [hwidth] at hlength hfront
          obtain ⟨hvalue, hposition', hrest⟩ :=
            FieldStream.readWord_of_le hside hposition hitem.1 hbegin hlength
          have hnumber := Field.number_wire_word s.swapped hitem.2
          rw [← hfront] at hvalue
          rw [show Word.value (Field.orient s.swapped .fixed
            ((Item.number width value).field.wire s.swapped)) = value from hnumber] at hvalue
          refine ⟨(s.readWord width).2, ?_, ?_, hposition', ?_⟩
          · rw [call, show s.readWord width = (.ok (some value), (s.readWord width).2) from
              Prod.ext hvalue rfl]
          · rw [FieldStream.readWord_eq hside]
            exact ⟨rfl, rfl, rfl⟩
          · rw [hrest, hfront, List.take_append_drop]
  | text dest =>
      cases item with
      | number width value => exact absurd hfor id
      | text f =>
          obtain ⟨hkind, hbytes⟩ := hfor
          have hbegin : taken <+: dest.wire s.swapped := hbegin
          have hlimit : dest.bytes.length ≤ dest.kind.limit := by
            rw [hkind, hbytes]
            exact hitem
          have hsize : (Item.text f).field.bytes.length = dest.bytes.length := hbytes.symm
          rw [hsize] at hlength hfront
          obtain ⟨hdone, hfield, hposition', hrest⟩ :=
            FieldStream.take_eq_of_le hside hposition hbegin hlength
          rw [← hfront, hkind] at hfield
          rw [show (⟨f.kind, Field.orient s.swapped f.kind ((Item.text f).field.wire s.swapped)⟩ :
            Field) = f from congrArg (Field.mk f.kind) (Field.orient_orient _ _ _)] at hfield
          refine ⟨(s.take dest).2.2, ?_, ⟨rfl, rfl, FieldStream.capacity_take _ _⟩, hposition', ?_⟩
          · rw [call, FieldStream.read_of_length_le hside hlimit, hdone, hfield]
          · rw [hrest, hfront, List.take_append_drop]

theorem call_of_length_lt (hfor : ask.For item) (hitem : item.Fits) (hside : s.side = .reader)
    (hposition : s.position = taken.length) (hbegin : taken <+: (ask.dest s).wire s.swapped)
    (hlt : (taken ++ s.buffer.unconsumed).length < item.field.bytes.length) :
    ∃ again t, ask.call s = (.ok (.inr again), t) ∧ s.Continues t ∧ again.For item ∧
      t.position = (taken ++ s.buffer.unconsumed).length ∧ t.buffer.unconsumed = [] ∧
      taken ++ s.buffer.unconsumed <+: (again.dest t).wire s.swapped := by
  cases ask with
  | number width =>
      cases item with
      | text f => exact absurd hfor id
      | number width' value =>
          obtain rfl : width = width' := hfor
          have hwidth : (Item.number width value).field.bytes.length = width := Word.length_bytes _ _
          rw [hwidth] at hlt
          obtain ⟨hvalue, hposition', hrest, hbegin'⟩ :=
            FieldStream.readWord_of_lt hside hposition hitem.1 hbegin hlt
          refine ⟨number width, (s.readWord width).2, ?_, ?_, rfl, hposition', hrest, hbegin'⟩
          · rw [call, show s.readWord width = (.ok none, (s.readWord width).2) from
              Prod.ext hvalue rfl]
          · rw [FieldStream.readWord_eq hside]
            exact ⟨rfl, rfl, rfl⟩
  | text dest =>
      cases item with
      | number width value => exact absurd hfor id
      | text f =>
          obtain ⟨hkind, hbytes⟩ := hfor
          have hbegin : taken <+: dest.wire s.swapped := hbegin
          have hlimit : dest.bytes.length ≤ dest.kind.limit := by
            rw [hkind, hbytes]
            exact hitem
          obtain ⟨hdone, hbegin', hposition', hrest⟩ :=
            FieldStream.take_eq_of_lt hside hposition hbegin (hbytes ▸ hlt)
          have hsame : (s.take dest).2.1.bytes.length = dest.bytes.length :=
            FieldStream.length_fill _ _ _ _
          refine ⟨text (s.take dest).2.1, (s.take dest).2.2, ?_,
            ⟨rfl, rfl, FieldStream.capacity_take _ _⟩, ⟨hkind, hsame.trans hbytes⟩, hposition', hrest,
            hbegin'⟩
          rw [call, FieldStream.read_of_length_le hside hlimit, hdone]

end Ask

/-- A reader at work: what it has still to ask for, and the items that it has. -/
structure Reader where
  stream : FieldStream
  asks : List Ask
  items : List Item

namespace Reader

inductive Move where
  | feed (bytes : List UInt8)
  /-- The call that is due is made, or made again. -/
  | read
  deriving DecidableEq, Repr

def Move.bytes : Move → List UInt8
  | feed bytes => bytes
  | read => []

def Move.piece? : Move → Option (List UInt8)
  | feed bytes => some bytes
  | read => none

/-- The pieces that are fed in some moves. -/
def pieces (moves : List Move) : List (List UInt8) :=
  moves.filterMap Move.piece?

/-- The bytes that are fed in some moves. -/
def fed (moves : List Move) : List UInt8 :=
  moves.flatMap Move.bytes

def new (capacity : Nat) (swapped : Bool) (asks : List Ask) : Reader :=
  ⟨.reader capacity swapped, asks, []⟩

def perform (r : Reader) : Move → Except Fault Reader
  | .feed bytes =>
    match r.stream.feed bytes with
    | (.ok _, stream) => .ok ⟨stream, r.asks, r.items⟩
    | (.error fault, _) => .error fault
  | .read =>
    match r.asks with
    | [] => .ok r
    | ask :: asks =>
      match ask.call r.stream with
      | (.ok (.inl item), stream) => .ok ⟨stream, asks, r.items ++ [item]⟩
      | (.ok (.inr ask), stream) => .ok ⟨stream, ask :: asks, r.items⟩
      | (.error fault, _) => .error fault

def run (r : Reader) (moves : List Move) : Except Fault Reader :=
  moves.foldlM perform r

theorem run_cons {r r' : Reader} {move : Move} (h : r.perform move = .ok r') (moves : List Move) :
    r.run (move :: moves) = r'.run moves := by
  rw [run, List.foldlM_cons, h]
  rfl

theorem run_append {r r' : Reader} {moves : List Move} (h : r.run moves = .ok r')
    (moves' : List Move) : r.run (moves ++ moves') = r'.run moves' := by
  rw [run] at h
  rw [run, List.foldlM_append, h]
  rfl

theorem fed_append (moves moves' : List Move) : fed (moves ++ moves') = fed moves ++ fed moves' :=
  List.flatMap_append

theorem pieces_append (moves moves' : List Move) : pieces (moves ++ moves') = pieces moves ++ pieces moves' :=
  List.filterMap_append

@[simp] theorem pieces_replicate_read (count : Nat) : pieces (List.replicate count .read) = [] :=
  List.filterMap_eq_nil_iff.mpr fun _ hmove => congrArg Move.piece? (List.mem_replicate.mp hmove).2

theorem flatten_pieces (moves : List Move) : (pieces moves).flatten = fed moves := by
  induction moves with
  | nil => rfl
  | cons move moves ih =>
      have hsplit : fed (move :: moves) = move.bytes ++ fed moves := List.flatMap_cons
      rw [hsplit, ← ih]
      cases move with
      | feed bytes => rfl
      | read => rfl

@[simp] theorem fed_replicate_read (count : Nat) : fed (List.replicate count .read) = [] := by
  rw [fed, List.flatMap_replicate]
  exact List.flatten_eq_nil_iff.mpr fun _ h => (List.mem_replicate.mp h).2

/-- Whether the bytes of the item under way that were moved are where the next ones are added to them. -/
def Holds (r : Reader) (taken : List UInt8) : Prop :=
  match r.asks with
  | [] => taken = []
  | ask :: _ => taken <+: (ask.dest r.stream).wire r.stream.swapped

/-- Whether a reader has as many of some items as were fed. -/
structure Tracks (capacity : Nat) (swapped : Bool) (items : List Item) (fed : List UInt8) (r : Reader) :
    Prop where
  side_eq : r.stream.side = .reader
  swapped_eq : r.stream.swapped = swapped
  capacity_eq : r.stream.capacity = capacity
  exists_rest : ∃ rest taken, items = r.items ++ rest ∧ List.Forall₂ Ask.For r.asks rest ∧
    fed = Item.wire swapped r.items ++ (taken ++ r.stream.buffer.unconsumed) ∧
    r.stream.position = taken.length ∧ r.Holds taken

variable {capacity : Nat} {swapped : Bool} {items : List Item} {bytes : List UInt8} {r : Reader}

theorem holds_nil (r : Reader) : r.Holds [] := by
  rw [Holds]
  split
  · rfl
  · exact List.nil_prefix

theorem tracks_new {asks : List Ask} (h : List.Forall₂ Ask.For asks items) (capacity : Nat)
    (swapped : Bool) : (new capacity swapped asks).Tracks capacity swapped items [] :=
  ⟨rfl, rfl, rfl, items, [], rfl, h, rfl, rfl, holds_nil _⟩

namespace Tracks

theorem exists_feed (h : r.Tracks capacity swapped items bytes) (more : List UInt8)
    (hroom : more.length + r.stream.pending ≤ capacity) :
    ∃ r', r.perform (.feed more) = .ok r' ∧ r'.Tracks capacity swapped items (bytes ++ more) := by
  obtain ⟨hside, hswapped, hcapacity, rest, taken, hitems, hasks, hbytes, hposition, hholds⟩ := h
  obtain ⟨buffer, hfeed, hsize, hunconsumed⟩ :=
    FieldStream.exists_feed_of_le hside (hcapacity ▸ hroom)
  refine ⟨⟨{ r.stream with buffer := buffer }, r.asks, r.items⟩, by rw [perform, hfeed], hside,
    hswapped, hsize.trans hcapacity, rest, taken, hitems, hasks, ?_, hposition, hholds⟩
  rw [hbytes, hunconsumed]
  simp only [List.append_assoc]

theorem perform_feed_of_lt (h : r.Tracks capacity swapped items bytes) {more : List UInt8}
    (hroom : capacity < more.length + r.stream.pending) :
    r.perform (.feed more) = .error .payloadTooLarge := by
  obtain ⟨buffer, hfeed, -⟩ := FieldStream.exists_feed_of_lt h.side_eq (h.capacity_eq ▸ hroom)
  rw [perform, hfeed]

/-- A piece is accepted exactly if there is room for it beside what was not read. -/
theorem perform_feed_iff (h : r.Tracks capacity swapped items bytes) (more : List UInt8) :
    (∃ r', r.perform (.feed more) = .ok r') ↔ more.length + r.stream.pending ≤ capacity := by
  constructor
  · rintro ⟨r', hperform⟩
    refine Nat.le_of_not_lt fun hlt => ?_
    simp [h.perform_feed_of_lt hlt] at hperform
  · intro hroom
    obtain ⟨r', hperform, -⟩ := h.exists_feed more hroom
    exact ⟨r', hperform⟩

/-- What comes next is what is asked for next. -/
theorem exists_next {item : Item} {rest : List Item} (h : r.Tracks capacity swapped items bytes)
    (hitems : items = r.items ++ item :: rest) :
    ∃ ask asks taken, r.asks = ask :: asks ∧ ask.For item ∧ List.Forall₂ Ask.For asks rest ∧
      bytes = Item.wire swapped r.items ++ (taken ++ r.stream.buffer.unconsumed) ∧
      r.stream.position = taken.length ∧ taken <+: (ask.dest r.stream).wire r.stream.swapped := by
  obtain ⟨rest', taken, hitems', hasks, hbytes, hposition, hholds⟩ := h.exists_rest
  have hrest : rest' = item :: rest := List.append_cancel_left (hitems'.symm.trans hitems)
  rw [hrest, List.forall₂_cons_right_iff] at hasks
  obtain ⟨ask, asks, hfor, hrest', heq⟩ := hasks
  rw [Holds, heq] at hholds
  exact ⟨ask, asks, taken, heq, hfor, hrest', hbytes, hposition, hholds⟩

theorem asks_eq_nil (h : r.Tracks capacity swapped r.items bytes) : r.asks = [] := by
  obtain ⟨rest, taken, hitems, hasks, -⟩ := h.exists_rest
  rw [List.self_eq_append_right.mp hitems, List.forall₂_nil_right_iff] at hasks
  exact hasks

/-- A call completes its item exactly if the last byte of it has been fed, and otherwise takes all that was
fed. -/
theorem exists_read {item : Item} {rest : List Item} (h : r.Tracks capacity swapped items bytes)
    (hfits : ∀ item ∈ items, item.Fits) (hfed : bytes <+: Item.wire swapped items)
    (hitems : items = r.items ++ item :: rest) :
    ∃ r', r.perform .read = .ok r' ∧ r'.Tracks capacity swapped items bytes ∧
      if (Item.wire swapped (r.items ++ [item])).length ≤ bytes.length then
        r'.items = r.items ++ [item]
      else r'.items = r.items ∧ r'.stream.pending = 0 := by
  obtain ⟨ask, asks, taken, hasks, hfor, hrest, hbytes, hposition, hbegin⟩ := h.exists_next hitems
  have hfit : item.Fits := hfits item (by rw [hitems]; simp)
  have hlength : (Item.wire swapped (r.items ++ [item])).length ≤ bytes.length ↔
      item.field.bytes.length ≤ (taken ++ r.stream.buffer.unconsumed).length := by
    rw [hbytes, Item.wire_append, Item.wire_cons, Item.wire_nil, List.append_nil, List.length_append,
      List.length_append, Field.length_wire]
    omega
  rcases Nat.lt_or_ge (taken ++ r.stream.buffer.unconsumed).length item.field.bytes.length with
    hlt | hle
  · obtain ⟨again, t, hcall, hsame, hfor', hposition', hempty, hbegin'⟩ :=
      ask.call_of_length_lt hfor hfit h.side_eq hposition hbegin hlt
    simp only [if_neg (mt hlength.mp (Nat.not_le_of_lt hlt))]
    refine ⟨⟨t, again :: asks, r.items⟩, ?_, ⟨hsame.side_eq.trans h.side_eq,
      hsame.swapped_eq.trans h.swapped_eq, hsame.capacity_eq.trans h.capacity_eq, item :: rest,
      taken ++ r.stream.buffer.unconsumed, hitems, .cons hfor' hrest, ?_, hposition', ?_⟩, rfl, ?_⟩
    · rw [perform, hasks]
      simp only [hcall]
    · rw [hempty, List.append_nil]
      exact hbytes
    · rw [Holds, hsame.swapped_eq]
      exact hbegin'
    · rw [FieldStream.pending, ← Buffer.length_unconsumed, hempty]
      rfl
  · have hwire : item.field.wire r.stream.swapped <+: taken ++ r.stream.buffer.unconsumed := by
      rw [hbytes, hitems, Item.wire_append, Item.wire_cons, List.prefix_append_right_inj] at hfed
      rw [h.swapped_eq]
      refine List.prefix_of_prefix_length_le (List.prefix_append _ _) hfed ?_
      rw [Field.length_wire]
      exact hle
    obtain ⟨t, hcall, hsame, hposition', hgone⟩ :=
      ask.call_of_isPrefix hfor hfit h.side_eq hposition hbegin hwire
    simp only [if_pos (hlength.mpr hle)]
    refine ⟨⟨t, asks, r.items ++ [item]⟩, ?_, ⟨hsame.side_eq.trans h.side_eq,
      hsame.swapped_eq.trans h.swapped_eq, hsame.capacity_eq.trans h.capacity_eq, rest, [], ?_, hrest, ?_,
      hposition', holds_nil _⟩, rfl⟩
    · rw [perform, hasks]
      simp only [hcall]
    · rw [hitems, List.append_assoc, List.singleton_append]
    · rw [hbytes, ← hgone, h.swapped_eq, Item.wire_append, Item.wire_cons, Item.wire_nil,
        List.append_nil, List.nil_append, List.append_assoc]

/-- No call fails. -/
theorem exists_perform_read (h : r.Tracks capacity swapped items bytes)
    (hfits : ∀ item ∈ items, item.Fits) (hfed : bytes <+: Item.wire swapped items) :
    ∃ r', r.perform .read = .ok r' ∧ r'.Tracks capacity swapped items bytes := by
  obtain ⟨rest, -, hitems, -⟩ := h.exists_rest
  cases rest with
  | nil =>
      rw [List.append_nil] at hitems
      subst hitems
      exact ⟨r, by rw [perform, h.asks_eq_nil], h⟩
  | cons item rest =>
      obtain ⟨r', hperform, htracks, -⟩ := h.exists_read hfits hfed hitems
      exact ⟨r', hperform, htracks⟩

theorem run (h : r.Tracks capacity swapped items bytes) (hfits : ∀ item ∈ items, item.Fits)
    {moves : List Move} {r' : Reader} (hrun : r.run moves = .ok r')
    (hfed : bytes ++ fed moves <+: Item.wire swapped items) :
    r'.Tracks capacity swapped items (bytes ++ fed moves) := by
  induction moves generalizing r bytes with
  | nil =>
      obtain rfl : r = r' := Except.ok.inj hrun
      rwa [fed, List.flatMap_nil, List.append_nil]
  | cons move moves ih =>
      have hsplit : fed (move :: moves) = move.bytes ++ fed moves := List.flatMap_cons
      rw [hsplit, ← List.append_assoc] at hfed ⊢
      have hnext : ∃ next, r.perform move = .ok next ∧
          next.Tracks capacity swapped items (bytes ++ move.bytes) := by
        cases move with
        | feed more =>
            refine h.exists_feed more (Nat.le_of_not_lt fun hlt => ?_)
            rw [Reader.run, List.foldlM_cons, h.perform_feed_of_lt hlt] at hrun
            exact nomatch hrun
        | read =>
            rw [Move.bytes, List.append_nil] at hfed ⊢
            exact h.exists_perform_read hfits ((List.prefix_append _ _).trans hfed)
      obtain ⟨next, hperform, htracks⟩ := hnext
      rw [run_cons hperform] at hrun
      exact ih htracks hrun hfed

/-- With all items there is nothing left over. -/
theorem position_eq_zero (h : r.Tracks capacity swapped r.items bytes)
    (hfed : bytes <+: Item.wire swapped r.items) :
    r.stream.position = 0 ∧ r.stream.pending = 0 := by
  obtain ⟨rest, taken, -, -, hbytes, hposition, -⟩ := h.exists_rest
  have hlength := hfed.length_le
  rw [hbytes, List.length_append, List.length_append, Buffer.length_unconsumed] at hlength
  rw [hposition, FieldStream.pending]
  omega

/-- Once everything has been fed, each further call completes an item. -/
theorem exists_run_read (h : r.Tracks capacity swapped items (Item.wire swapped items))
    (hfits : ∀ item ∈ items, item.Fits) {rest : List Item} (hitems : items = r.items ++ rest) :
    ∃ r', r.run (List.replicate rest.length .read) = .ok r' ∧ r'.items = items ∧
      r'.stream.position = 0 ∧ r'.stream.pending = 0 := by
  induction rest generalizing r with
  | nil =>
      rw [List.append_nil] at hitems
      subst hitems
      exact ⟨r, rfl, rfl, h.position_eq_zero (List.prefix_refl _)⟩
  | cons item rest ih =>
      obtain ⟨next, hperform, htracks, hnext⟩ := h.exists_read hfits (List.prefix_refl _) hitems
      have hitems' : items = (r.items ++ [item]) ++ rest := by
        rw [hitems, List.append_assoc, List.singleton_append]
      have hfront : Item.wire swapped (r.items ++ [item]) <+: Item.wire swapped items := by
        rw [hitems', Item.wire_append _ _ rest]
        exact List.prefix_append _ _
      rw [if_pos hfront.length_le] at hnext
      obtain ⟨r', hrun, hdone⟩ := ih htracks (hnext ▸ hitems')
      refine ⟨r', ?_, hdone⟩
      rw [List.length_cons, List.replicate_succ, run_cons hperform]
      exact hrun

/-- Enough calls take all that was fed. -/
theorem exists_run_read_of_isPrefix (h : r.Tracks capacity swapped items bytes)
    (hfits : ∀ item ∈ items, item.Fits) (hfed : bytes <+: Item.wire swapped items) :
    ∃ count r', r.run (List.replicate count .read) = .ok r' ∧ r'.Tracks capacity swapped items bytes ∧
      r'.stream.pending = 0 := by
  obtain ⟨rest, -, hitems, -⟩ := h.exists_rest
  induction rest generalizing r with
  | nil =>
      rw [List.append_nil] at hitems
      subst hitems
      exact ⟨0, r, rfl, h, (h.position_eq_zero hfed).2⟩
  | cons item rest ih =>
      obtain ⟨next, hperform, htracks, hnext⟩ := h.exists_read hfits hfed hitems
      split at hnext
      · have hitems' : items = next.items ++ rest := by
          rw [hnext, hitems, List.append_assoc, List.singleton_append]
        obtain ⟨count, r', hrun, hdone⟩ := ih htracks hitems'
        refine ⟨count + 1, r', ?_, hdone⟩
        rw [List.replicate_succ, run_cons hperform]
        exact hrun
      · exact ⟨1, next, run_cons hperform [], htracks, hnext.2⟩

/-- Bytes can be fed in any pieces that a capacity has room for, with calls in between. -/
theorem exists_run_pieces (h : r.Tracks capacity swapped items bytes) (hfits : ∀ item ∈ items, item.Fits)
    (hpending : r.stream.pending = 0) {cut : List (List UInt8)}
    (hroom : ∀ piece ∈ cut, piece.length ≤ capacity)
    (hfed : bytes ++ cut.flatten <+: Item.wire swapped items) :
    ∃ moves r', r.run moves = .ok r' ∧ pieces moves = cut ∧
      r'.Tracks capacity swapped items (bytes ++ cut.flatten) := by
  induction cut generalizing r bytes with
  | nil => exact ⟨[], r, rfl, rfl, by rwa [List.flatten_nil, List.append_nil]⟩
  | cons piece cut ih =>
      rw [List.forall_mem_cons] at hroom
      rw [List.flatten_cons, ← List.append_assoc] at hfed ⊢
      obtain ⟨next, hfeed, htracks⟩ := h.exists_feed piece (by rw [hpending]; exact hroom.1)
      obtain ⟨count, calm, hreads, htracks', hpending'⟩ :=
        htracks.exists_run_read_of_isPrefix hfits ((List.prefix_append _ _).trans hfed)
      obtain ⟨moves, r', hrun, hmoves, hdone⟩ := ih htracks' hpending' hroom.2 hfed
      refine ⟨.feed piece :: (List.replicate count .read ++ moves), r', ?_, ?_, hdone⟩
      · rw [run_cons hfeed, run_append hreads]
        exact hrun
      · have hreading : pieces (List.replicate count .read ++ moves) = cut := by
          rw [pieces_append, pieces_replicate_read, hmoves, List.nil_append]
        exact congrArg (List.cons piece) hreading

/-- Whatever the capacity, all bytes can be fed: one at a time. -/
theorem exists_run (h : r.Tracks capacity swapped items bytes) (hfits : ∀ item ∈ items, item.Fits)
    (hcapacity : 0 < capacity) (hpending : r.stream.pending = 0) (more : List UInt8)
    (hfed : bytes ++ more <+: Item.wire swapped items) :
    ∃ moves r', r.run moves = .ok r' ∧ fed moves = more ∧
      r'.Tracks capacity swapped items (bytes ++ more) := by
  have hmore : (more.map fun byte => [byte]).flatten = more := List.flatMap_singleton' more
  have hroom : ∀ piece ∈ more.map fun byte => [byte], piece.length ≤ capacity :=
    List.forall_mem_map.mpr fun _ _ => hcapacity
  rw [← hmore] at hfed
  obtain ⟨moves, r', hrun, hmoves, htracks⟩ := h.exists_run_pieces hfits hpending hroom hfed
  rw [hmore] at htracks
  exact ⟨moves, r', hrun, by rw [← flatten_pieces, hmoves, hmore], htracks⟩

end Tracks

end Reader

/-- What is written at one capacity is read at any other. Writing ends, and what comes out depends on the items
and the byte order alone. A reader can be fed these bytes and has the items then. However they are fed and
read, as long as each piece is accepted, the reader has a front of the items: its next call completes exactly if
the last byte of its item has been fed, and after the last byte of all it reads the rest of the items and has
nothing left over. -/
theorem items_round_trip (swapped : Bool) {items : List Item} (hitems : ∀ item ∈ items, item.Fits)
    {writerCapacity readerCapacity : Nat} (hwriter : 0 < writerCapacity)
    (hreader : 0 < readerCapacity) :
    (∃ chunks t, Written (.writer writerCapacity swapped) items chunks t) ∧
      (∀ chunks t, Written (.writer writerCapacity swapped) items chunks t →
        chunks.flatten ++ t.data = Item.wire swapped items ∧
          ∀ chunk ∈ chunks, chunk.length = writerCapacity) ∧
      ∀ asks, List.Forall₂ Ask.For asks items →
        (∃ moves r, (Reader.new readerCapacity swapped asks).run moves = .ok r ∧
          Reader.fed moves = Item.wire swapped items ∧ r.items = items) ∧
        ∀ moves r, (Reader.new readerCapacity swapped asks).run moves = .ok r →
          Reader.fed moves <+: Item.wire swapped items →
            ∃ rest, items = r.items ++ rest ∧
              (∀ bytes, (∃ r', r.perform (.feed bytes) = .ok r') ↔
                bytes.length + r.stream.pending ≤ readerCapacity) ∧
              (∀ item ∈ rest.head?, ∃ r', r.perform .read = .ok r' ∧
                if (Item.wire swapped (r.items ++ [item])).length ≤ (Reader.fed moves).length then
                  r'.items = r.items ++ [item]
                else r'.items = r.items ∧ r'.stream.pending = 0) ∧
              (Reader.fed moves = Item.wire swapped items →
                ∃ r', r.run (List.replicate rest.length .read) = .ok r' ∧ r'.items = items ∧
                  r'.stream.position = 0 ∧ r'.stream.pending = 0) := by
  refine ⟨exists_written hitems rfl hwriter rfl, ?_, ?_⟩
  · intro chunks t hwritten
    obtain ⟨hflatten, -, hchunks⟩ := hwritten.flatten_append_data (Item.begins_zero items)
    have hempty : (FieldStream.writer writerCapacity swapped).data = [] := Buffer.filled_new _
    rw [hempty, List.nil_append] at hflatten
    exact ⟨hflatten, hchunks⟩
  · intro asks hasks
    have hnew := Reader.tracks_new hasks readerCapacity swapped
    constructor
    · obtain ⟨moves, r, hrun, hmoves, htracks⟩ :=
        hnew.exists_run hitems hreader rfl (Item.wire swapped items) (List.prefix_refl _)
      obtain ⟨rest, -, hrest, -⟩ := htracks.exists_rest
      obtain ⟨r', hreads, hdone, -⟩ := htracks.exists_run_read hitems hrest
      refine ⟨_, r', (Reader.run_append hrun _).trans hreads, ?_, hdone⟩
      rw [Reader.fed_append, hmoves, Reader.fed_replicate_read, List.append_nil]
    · intro moves r hrun hfed
      have htracks := hnew.run hitems hrun hfed
      rw [List.nil_append] at htracks
      obtain ⟨rest, -, hrest, -⟩ := htracks.exists_rest
      refine ⟨rest, hrest, htracks.perform_feed_iff, ?_, ?_⟩
      · intro item hitem
        obtain ⟨rest', rfl⟩ := List.head?_eq_some_iff.mp hitem
        obtain ⟨r', hperform, -, hnext⟩ := htracks.exists_read hitems hfed hrest
        exact ⟨r', hperform, hnext⟩
      · intro hall
        rw [hall] at htracks
        exact htracks.exists_run_read hitems hrest

/-- Four items of all sorts, written three bytes at a time and read two bytes at a time. -/
theorem items_round_trip_mixed :
    (∃ chunks t,
      Written (.writer 3 true)
        [.number 1 16, .number 2 258, .text ⟨.fixed, [10, 20, 30]⟩, .text (.raw [65, 66])] chunks t ∧
      chunks.flatten ++ t.data = [16, 1, 2, 30, 20, 10, 65, 66]) ∧
    ∃ moves r,
      (Reader.new 2 true [.number 1, .number 2, .text ⟨.fixed, [9, 9, 9]⟩, .text (.raw [9, 9])]).run
        moves = .ok r ∧
      Reader.fed moves = [16, 1, 2, 30, 20, 10, 65, 66] ∧
      r.items = [.number 1 16, .number 2 258, .text ⟨.fixed, [10, 20, 30]⟩, .text (.raw [65, 66])] := by
  have hitems : ∀ item ∈ ([.number 1 16, .number 2 258, .text ⟨.fixed, [10, 20, 30]⟩,
      .text (.raw [65, 66])] : List Item), item.Fits := by decide
  obtain ⟨⟨chunks, t, hwritten⟩, hwire, hread⟩ :=
    items_round_trip true hitems (by decide : 0 < 3) (by decide : 0 < 2)
  refine ⟨⟨chunks, t, hwritten, (hwire chunks t hwritten).1.trans (by decide)⟩, ?_⟩
  obtain ⟨⟨moves, r, hrun, hfed, hdone⟩, -⟩ :=
    hread [.number 1, .number 2, .text ⟨.fixed, [9, 9, 9]⟩, .text (.raw [9, 9])]
      (.cons rfl (.cons rfl (.cons ⟨rfl, rfl⟩ (.cons ⟨rfl, rfl⟩ .nil))))
  exact ⟨moves, r, hrun, hfed.trans (by decide), hdone⟩

end Infrared
