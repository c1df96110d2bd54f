import Mathlib.Algebra.GroupWithZero.Nat
import Infrared.Proofs.Bench.Script

namespace Infrared

namespace Link

/-- A block that is moved over a link. -/
inductive Transfer where
  /-- Fills a destination. -/
  | read (dest : List UInt8)
  | write (data : List UInt8)
  deriving DecidableEq, Repr

/-- How a transfer ended, and what the block is then. -/
structure Outcome where
  result : Except Fault Unit
  block : List UInt8
  deriving Repr

variable {σ : Type} [Link σ]

def perform (s : σ) : Transfer → Outcome × σ
  | .read dest =>
    match readExact dest s with
    | (result, filled, s) => (⟨result, filled⟩, s)
  | .write data =>
    match writeAll data s with
    | (result, s) => (⟨result, data⟩, s)

/-- Moves blocks one after the other, also after one of them failed. -/
def run (s : σ) : List Transfer → List Outcome × σ
  | [] => ([], s)
  | transfer :: transfers =>
    match perform s transfer with
    | (outcome, s) =>
      match run s transfers with
      | (outcomes, s) => (outcome :: outcomes, s)

end Link

namespace Bench

open Link (Transfer Outcome)

/-- What a link accepts until it refuses a write. -/
structure Uptake where
  /-- How many bytes are accepted at most, write by write, and never none. -/
  counts : List Nat
  /-- Why the next write is refused. If there is no reason, each further write is accepted as a whole. -/
  refusal : Option Fault
  /-- The items that follow. -/
  later : List (Option Nat)

namespace Uptake

/-- A write of which no byte is accepted says that the link is closed. -/
def ofWrites : List (Option Nat) → Uptake
  | [] => ⟨[], none, []⟩
  | none :: writes => ⟨[], some .io, writes⟩
  | some 0 :: writes => ⟨[], some .disconnected, writes⟩
  | some (count + 1) :: writes =>
    match ofWrites writes with
    | ⟨counts, refusal, later⟩ => ⟨(count + 1) :: counts, refusal, later⟩

/-- How many bytes of a block of some length are accepted. -/
def amount (u : Uptake) (length : Nat) : Nat :=
  match u.refusal with
  | none => length
  | some _ => min length u.counts.sum

theorem ofWrites_cons {count : Nat} (h : 0 < count) (writes : List (Option Nat)) :
    ofWrites (some count :: writes) = ⟨count :: (ofWrites writes).counts, (ofWrites writes).refusal,
      (ofWrites writes).later⟩ := by
  cases count with
  | zero => exact absurd h (Nat.lt_irrefl 0)
  | succ count => rfl

/-- All of a block is accepted, or a write is refused before. -/
theorem amount_eq_length_or (u : Uptake) (length : Nat) :
    u.amount length = length ∨
      ∃ fault, u.refusal = some fault ∧ u.counts.sum < length ∧ u.amount length = u.counts.sum := by
  rw [amount]
  cases u.refusal with
  | none => exact .inl rfl
  | some fault =>
      rcases Nat.lt_or_ge u.counts.sum length with hlt | hle
      · exact .inr ⟨fault, rfl, hlt, Nat.min_eq_right (Nat.le_of_lt hlt)⟩
      · exact .inl (Nat.min_eq_left hle)

/-- A block of which a write accepted a part goes on with the rest. -/
theorem amount_sub {count length : Nat} (h : 0 < count) {writes : List (Option Nat)}
    (hall : (ofWrites (some count :: writes)).amount length = length) :
    (ofWrites writes).amount (length - count) = length - count := by
  rw [ofWrites_cons h] at hall
  unfold amount at hall ⊢
  cases hrefusal : (ofWrites writes).refusal with
  | none => rfl
  | some fault =>
      simp only [hrefusal, List.sum_cons] at hall ⊢
      omega

end Uptake

namespace Script

variable {s t : Script} {dest data : List UInt8}

def uptake (s : Script) : Uptake :=
  .ofWrites s.writes

theorem exists_readExact_of_le (h : dest.length ≤ s.arrival.bytes.length) :
    ∃ chunks, Link.readExact dest s =
        (.ok (), s.arrival.bytes.take dest.length, { s with reads := chunks }) ∧
      Arrival.ofChunks chunks = s.arrival.drop dest.length := by
  obtain ⟨chunks, hcollect, hchunks⟩ := exists_collect_of_le h #[]
  refine ⟨chunks, ?_, hchunks⟩
  have hlength : (s.arrival.bytes.take dest.length).length = dest.length := List.length_take_of_le h
  rw [Link.readExact, hcollect]
  simp [hlength]

theorem readExact_of_lt (h : s.arrival.bytes.length < dest.length) :
    Link.readExact dest s = (.error s.arrival.ending,
      s.arrival.bytes ++ dest.drop s.arrival.bytes.length, { s with reads := s.arrival.later }) := by
  rw [Link.readExact, collect_of_arrival_lt h]
  simp

/-- What becomes of a destination that is to be filled, and of the link. -/
structure Fills (dest : List UInt8) (s : Script) (result : Except Fault Unit) (filled : List UInt8)
    (t : Script) : Prop where
  ok_iff : result = .ok () ↔ dest.length ≤ s.arrival.bytes.length
  error_iff : ∀ fault, result = .error fault ↔
    fault = s.arrival.ending ∧ s.arrival.bytes.length < dest.length
  /-- What arrived is in front, and behind it what was there before. -/
  filled_eq : filled = s.arrival.bytes.take dest.length ++ dest.drop s.arrival.bytes.length
  /-- What was not read is there for the next one. -/
  arrival_of_ok : result = .ok () → t.arrival = s.arrival.drop dest.length
  reads_of_error : ∀ fault, result = .error fault → t.reads = s.arrival.later
  others_eq : t = { s with reads := t.reads }
  eq_of_nil : dest = [] → t = s

theorem fills_readExact (dest : List UInt8) (s : Script) :
    Fills dest s (Link.readExact dest s).1 (Link.readExact dest s).2.1 (Link.readExact dest s).2.2 := by
  have hnil : dest = [] → (Link.readExact dest s).2.2 = s := by
    rintro rfl
    simp only [Link.readExact, List.length_nil, Link.collect_zero]
  rcases Nat.lt_or_ge s.arrival.bytes.length dest.length with hlt | hle
  · rw [readExact_of_lt hlt] at hnil ⊢
    constructor
    case ok_iff => simpa using hlt
    case error_iff => simp [hlt, eq_comm]
    case filled_eq => exact congrArg (· ++ _) (List.take_of_length_le (Nat.le_of_lt hlt)).symm
    case arrival_of_ok => simp
    case reads_of_error => exact fun _ _ => rfl
    case others_eq => rfl
    case eq_of_nil => exact hnil
  · obtain ⟨chunks, hread, hchunks⟩ := exists_readExact_of_le hle
    rw [hread] at hnil ⊢
    constructor
    case ok_iff => simpa using hle
    case error_iff => simp [hle]
    case filled_eq => rw [List.drop_eq_nil_of_le hle, List.append_nil]
    case arrival_of_ok => exact fun _ => hchunks
    case reads_of_error => simp
    case others_eq => rfl
    case eq_of_nil => exact hnil

theorem write_of_nil (hwrites : s.writes = []) (data : List UInt8) :
    Link.write data s = (some data.length,
      ⟨s.reads, [], data :: s.accepted, data.length :: s.offers⟩) := by
  change write data s = _
  rw [write, hwrites]

theorem write_of_none {writes : List (Option Nat)} (hwrites : s.writes = none :: writes)
    (data : List UInt8) :
    Link.write data s = (none, ⟨s.reads, writes, s.accepted, data.length :: s.offers⟩) := by
  change write data s = _
  rw [write, hwrites]

theorem write_of_some {count : Nat} {writes : List (Option Nat)}
    (hwrites : s.writes = some count :: writes) (data : List UInt8) :
    Link.write data s = (some (data.take count).length,
      ⟨s.reads, writes, data.take count :: s.accepted, data.length :: s.offers⟩) := by
  change write data s = _
  rw [write, hwrites]

theorem writeAll_cons {count : Nat} {writes : List (Option Nat)}
    (hwrites : s.writes = some count :: writes) (hcount : 0 < count) (hdata : data ≠ []) :
    Link.writeAll data s = Link.writeAll (data.drop count)
      ⟨s.reads, writes, data.take count :: s.accepted, data.length :: s.offers⟩ :=
  Link.writeAll_of_take hdata hcount (write_of_some hwrites data)

/-- Whether the writes of a block take some number of items of the script: as many as it needs to write all of it. -/
structure Uses (s : Script) (length used : Nat) : Prop where
  le_length : used ≤ s.writes.length
  sum_lt : ∀ i < used, (s.uptake.counts.take i).sum < length
  le_sum : length ≤ (s.uptake.counts.take used).sum ∨ used = s.writes.length

theorem uses_zero (s : Script) : s.Uses 0 0 :=
  ⟨Nat.zero_le _, fun _ h => absurd h (Nat.not_lt_zero _), .inl (Nat.zero_le _)⟩

theorem Uses.cons {count length used : Nat} {writes : List (Option Nat)} (hcount : 0 < count)
    (hlength : 0 < length) (hs : s.writes = some count :: writes) (ht : t.writes = writes)
    (h : t.Uses (length - count) used) : s.Uses length (used + 1) := by
  obtain ⟨hle, hlt, hsum⟩ := h
  have hcounts : s.uptake.counts = count :: t.uptake.counts := by
    rw [uptake, hs, Uptake.ofWrites_cons hcount, uptake, ht]
  have hitems : s.writes.length = t.writes.length + 1 := by
    rw [hs, ht, List.length_cons]
  refine ⟨by omega, ?_, ?_⟩
  · intro i hi
    cases i with
    | zero => exact hlength
    | succ i =>
        have hrest := hlt i (Nat.lt_of_succ_lt_succ hi)
        rw [hcounts, List.take_succ_cons, List.sum_cons]
        omega
  · rw [hcounts, List.take_succ_cons, List.sum_cons]
    omega

theorem exists_writeAll_of_amount_eq (h : s.uptake.amount data.length = data.length) :
    ∃ (used : Nat) (pieces : List (List UInt8)) (offers : List Nat), Link.writeAll data s =
        (.ok (), ⟨s.reads, s.writes.drop used, pieces.reverse ++ s.accepted, offers⟩) ∧
      pieces.flatten = data ∧ s.Uses data.length used := by
  generalize hwrites : s.writes = writes
  rw [uptake, hwrites] at h
  induction writes generalizing s data with
  | nil =>
      by_cases hdata : data = []
      · subst hdata
        exact ⟨0, [], s.offers, by rw [Link.writeAll_nil, ← hwrites]; rfl, rfl, s.uses_zero⟩
      · refine ⟨0, [data], data.length :: s.offers, ?_, List.append_nil data, Nat.zero_le _,
          fun _ h => absurd h (Nat.not_lt_zero _), .inr (by rw [hwrites]; rfl)⟩
        rw [Link.writeAll_of_write hdata (write_of_nil hwrites data) (List.length_pos_iff.mpr hdata),
          List.drop_length, Link.writeAll_nil]
        rfl
  | cons item writes ih =>
      by_cases hdata : data = []
      · subst hdata
        exact ⟨0, [], s.offers, by rw [Link.writeAll_nil, ← hwrites]; rfl, rfl, s.uses_zero⟩
      match item with
      | none => simp [Uptake.amount, Uptake.ofWrites, eq_comm, hdata] at h
      | some 0 => simp [Uptake.amount, Uptake.ofWrites, eq_comm, hdata] at h
      | some (count + 1) =>
          have hcount : 0 < count + 1 := Nat.succ_pos count
          have hrest := Uptake.amount_sub hcount h
          rw [← List.length_drop] at hrest
          obtain ⟨used, pieces, offers, hwrite, hpieces, huses⟩ :=
            ih (s := ⟨s.reads, writes, data.take (count + 1) :: s.accepted, data.length :: s.offers⟩)
              hrest rfl
          rw [List.length_drop] at huses
          refine ⟨used + 1, data.take (count + 1) :: pieces, offers, ?_, ?_,
            huses.cons hcount (List.length_pos_iff.mpr hdata) hwrites rfl⟩
          · rw [writeAll_cons hwrites hcount hdata, hwrite]
            simp
          · rw [List.flatten_cons, hpieces, List.take_append_drop]

theorem exists_writeAll_of_refused {fault : Fault} (hrefusal : s.uptake.refusal = some fault)
    (hlt : s.uptake.counts.sum < data.length) :
    ∃ (pieces : List (List UInt8)) (offers : List Nat), Link.writeAll data s =
        (.error fault, ⟨s.reads, s.uptake.later, pieces.reverse ++ s.accepted, offers⟩) ∧
      pieces.flatten = data.take s.uptake.counts.sum := by
  generalize hwrites : s.writes = writes
  rw [uptake, hwrites] at hrefusal hlt ⊢
  have hdata : data ≠ [] := List.ne_nil_of_length_pos (Nat.zero_lt_of_lt hlt)
  induction writes generalizing s data with
  | nil => simp [Uptake.ofWrites] at hrefusal
  | cons item writes ih =>
      match item with
      | none =>
          obtain rfl : Fault.io = fault := Option.some.inj hrefusal
          exact ⟨[], _, Link.writeAll_of_failed hdata (write_of_none hwrites data), rfl⟩
      | some 0 =>
          obtain rfl : Fault.disconnected = fault := Option.some.inj hrefusal
          exact ⟨[[]], _, Link.writeAll_of_closed hdata (write_of_some hwrites data), rfl⟩
      | some (count + 1) =>
          have hcount : 0 < count + 1 := Nat.succ_pos count
          rw [Uptake.ofWrites_cons hcount] at hrefusal hlt ⊢
          simp only [List.sum_cons] at hlt ⊢
          have hrest : (Uptake.ofWrites writes).counts.sum < (data.drop (count + 1)).length := by
            rw [List.length_drop]
            omega
          obtain ⟨pieces, offers, hwrite, hpieces⟩ :=
            ih (s := ⟨s.reads, writes, data.take (count + 1) :: s.accepted, data.length :: s.offers⟩)
              hrest hrefusal rfl (List.ne_nil_of_length_pos (Nat.zero_lt_of_lt hrest))
          refine ⟨data.take (count + 1) :: pieces, offers, ?_, ?_⟩
          · rw [writeAll_cons hwrites hcount hdata, hwrite]
            simp
          · rw [List.flatten_cons, hpieces]
            exact List.take_add.symm

/-- What becomes of a link over which a block is to be written. -/
structure Delivers (data : List UInt8) (s : Script) (result : Except Fault Unit) (t : Script) : Prop where
  /-- All of the block is written, or the result says that it is not. -/
  ok_iff : result = .ok () ↔ t.written = s.written ++ data
  error_iff : ∀ fault, result = .error fault ↔
    s.uptake.refusal = some fault ∧ s.uptake.counts.sum < data.length
  /-- The bytes that the writes accepted, one write after the other, are a front of the block. -/
  exists_pieces : ∃ pieces : List (List UInt8), t.accepted = pieces.reverse ++ s.accepted ∧
    pieces.flatten = data.take (s.uptake.amount data.length)
  writes_of_ok : result = .ok () → ∃ used, s.Uses data.length used ∧ t.writes = s.writes.drop used
  writes_of_error : ∀ fault, result = .error fault → t.writes = s.uptake.later
  reads_eq : t.reads = s.reads
  eq_of_nil : data = [] → t = s

theorem written_eq {pieces : List (List UInt8)} (h : t.accepted = pieces.reverse ++ s.accepted) :
    t.written = s.written ++ pieces.flatten := by
  rw [written, h, List.reverse_append, List.reverse_reverse, List.flatten_append]
  rfl

theorem delivers_writeAll (data : List UInt8) (s : Script) :
    Delivers data s (Link.writeAll data s).1 (Link.writeAll data s).2 := by
  have hnil : data = [] → (Link.writeAll data s).2 = s := by
    rintro rfl
    rw [Link.writeAll_nil]
  rcases s.uptake.amount_eq_length_or data.length with hall | ⟨fault, hrefusal, hlt, hamount⟩
  · obtain ⟨used, pieces, offers, hwrite, hpieces, huses⟩ := exists_writeAll_of_amount_eq hall
    have hwritten := written_eq (s := s)
      (t := ⟨s.reads, s.writes.drop used, pieces.reverse ++ s.accepted, offers⟩) rfl
    have hnot : ∀ fault, s.uptake.refusal = some fault → data.length ≤ s.uptake.counts.sum := by
      intro fault hrefusal
      rw [Uptake.amount, hrefusal] at hall
      dsimp only at hall
      omega
    rw [hwrite] at hnil ⊢
    constructor
    case ok_iff => rw [hwritten, hpieces]; simp
    case error_iff => simpa using hnot
    case exists_pieces => exact ⟨pieces, rfl, by rw [hall, List.take_length, hpieces]⟩
    case writes_of_ok => exact fun _ => ⟨used, huses, rfl⟩
    case writes_of_error => simp
    case reads_eq => rfl
    case eq_of_nil => exact hnil
  · obtain ⟨pieces, offers, hwrite, hpieces⟩ := exists_writeAll_of_refused hrefusal hlt
    have hwritten := written_eq (s := s)
      (t := ⟨s.reads, s.uptake.later, pieces.reverse ++ s.accepted, offers⟩) rfl
    have hpart : pieces.flatten ≠ data := by
      intro heq
      have hlength := congrArg List.length (hpieces.symm.trans heq)
      rw [List.length_take] at hlength
      omega
    rw [hwrite] at hnil ⊢
    constructor
    case ok_iff => rw [hwritten, List.append_right_inj]; simpa using hpart
    case error_iff => simp [hrefusal, hlt]
    case exists_pieces => exact ⟨pieces, rfl, by rw [hamount, hpieces]⟩
    case writes_of_ok => simp
    case writes_of_error => exact fun _ _ => rfl
    case reads_eq => rfl
    case eq_of_nil => exact hnil

end Script

namespace Arrival

/-- The bytes that arrive once a link was closed or failed so many times, until it is closed or fails again, and which
of the two that is. -/
def stretch : Nat → List (Option (List UInt8)) → List UInt8 × Fault
  | 0, chunks => ((ofChunks chunks).bytes, (ofChunks chunks).ending)
  | count + 1, chunks => stretch count (ofChunks chunks).later

/-- Where the same arrives, the same is left once as many bytes were read. -/
theorem stretch_eq_of_drop {chunks chunks' left left' : List (Option (List UInt8))} {read : Nat}
    (hleft : ofChunks left = (ofChunks chunks).drop read)
    (hleft' : ofChunks left' = (ofChunks chunks').drop read)
    (h : ∀ count, stretch count chunks' = stretch count chunks) (count : Nat) :
    stretch count left' = stretch count left := by
  cases count with
  | zero =>
      have hsame := Prod.ext_iff.mp (h 0)
      rw [stretch, stretch, hleft, hleft']
      exact Prod.ext (congrArg (List.drop read) hsame.1) hsame.2
  | succ count =>
      rw [stretch, stretch, hleft, hleft']
      exact h (count + 1)

end Arrival

namespace Script

variable {s t : Script}

/-- Whether two links differ at most in how what arrives over them is cut into chunks. -/
structure Alike (s t : Script) : Prop where
  others_eq : t = { s with reads := t.reads }
  stretch_eq : ∀ count, Arrival.stretch count t.reads = Arrival.stretch count s.reads

theorem Alike.readExact (h : s.Alike t) (dest : List UInt8) :
    (Link.readExact dest t).1 = (Link.readExact dest s).1 ∧
      (Link.readExact dest t).2.1 = (Link.readExact dest s).2.1 ∧
      (Link.readExact dest s).2.2.Alike (Link.readExact dest t).2.2 := by
  obtain ⟨hbytes, hending⟩ := Prod.ext_iff.mp (h.stretch_eq 0)
  change t.arrival.bytes = s.arrival.bytes at hbytes
  change t.arrival.ending = s.arrival.ending at hending
  rcases Nat.lt_or_ge s.arrival.bytes.length dest.length with hlt | hle
  · rw [readExact_of_lt hlt, readExact_of_lt (hbytes ▸ hlt), hbytes, hending]
    refine ⟨rfl, rfl, ?_, fun count => h.stretch_eq (count + 1)⟩
    rw [h.others_eq]
  · obtain ⟨chunks, hs, hchunks⟩ := exists_readExact_of_le hle
    obtain ⟨chunks', ht, hchunks'⟩ := exists_readExact_of_le (s := t) (hbytes ▸ hle)
    rw [hs, ht, hbytes]
    refine ⟨rfl, rfl, ?_, Arrival.stretch_eq_of_drop hchunks hchunks' h.stretch_eq⟩
    rw [h.others_eq]

theorem write_withReads (chunks : List (Option (List UInt8))) (data : List UInt8) (s : Script) :
    Link.write data { s with reads := chunks } =
      ((Link.write data s).1, { (Link.write data s).2 with reads := chunks }) := by
  change write data { s with reads := chunks } =
    ((write data s).1, { (write data s).2 with reads := chunks })
  rw [write, write]
  cases s.writes with
  | nil => rfl
  | cons item writes =>
      cases item with
      | none => rfl
      | some count => rfl

theorem Alike.writeAll (h : s.Alike t) (data : List UInt8) :
    (Link.writeAll data t).1 = (Link.writeAll data s).1 ∧
      (Link.writeAll data s).2.Alike (Link.writeAll data t).2 := by
  have hwrite := Link.writeAll_map (f := fun s : Script => { s with reads := t.reads })
    (write_withReads t.reads) data s
  rw [← h.others_eq] at hwrite
  rw [hwrite]
  refine ⟨rfl, rfl, fun count => ?_⟩
  rw [reads_writeAll]
  exact h.stretch_eq count

theorem Alike.perform (h : s.Alike t) (transfer : Transfer) :
    (Link.perform t transfer).1 = (Link.perform s transfer).1 ∧
      (Link.perform s transfer).2.Alike (Link.perform t transfer).2 := by
  cases transfer with
  | read dest =>
      obtain ⟨hresult, hfilled, halike⟩ := h.readExact dest
      refine ⟨?_, halike⟩
      simp only [Link.perform, hresult, hfilled]
  | write data =>
      obtain ⟨hresult, halike⟩ := h.writeAll data
      refine ⟨?_, halike⟩
      simp only [Link.perform, hresult]

theorem Alike.run (h : s.Alike t) (transfers : List Transfer) :
    (Link.run t transfers).1 = (Link.run s transfers).1 ∧
      (Link.run s transfers).2.Alike (Link.run t transfers).2 := by
  induction transfers generalizing s t with
  | nil => exact ⟨rfl, h⟩
  | cons transfer transfers ih =>
      obtain ⟨houtcome, halike⟩ := h.perform transfer
      obtain ⟨houtcomes, halike'⟩ := ih halike
      refine ⟨?_, halike'⟩
      simp only [Link.run, houtcome, houtcomes]

/-- Whether blocks are moved one after the other as they should be, from one state of a link to another. -/
inductive Carries : Script → List Transfer → List Outcome → Script → Prop where
  | nil (s : Script) : Carries s [] [] s
  | read {s t u : Script} {dest filled : List UInt8} {result : Except Fault Unit}
      {transfers : List Transfer} {outcomes : List Outcome} (hfills : Fills dest s result filled t)
      (hrest : Carries t transfers outcomes u) :
    Carries s (.read dest :: transfers) (⟨result, filled⟩ :: outcomes) u
  | write {s t u : Script} {data : List UInt8} {result : Except Fault Unit}
      {transfers : List Transfer} {outcomes : List Outcome} (hdelivers : Delivers data s result t)
      (hrest : Carries t transfers outcomes u) :
    Carries s (.write data :: transfers) (⟨result, data⟩ :: outcomes) u

theorem carries_run (transfers : List Transfer) (s : Script) :
    Carries s transfers (Link.run s transfers).1 (Link.run s transfers).2 := by
  induction transfers generalizing s with
  | nil => exact .nil s
  | cons transfer transfers ih =>
      cases transfer with
      | read dest => exact .read (fills_readExact dest s) (ih _)
      | write data => exact .write (delivers_writeAll data s) (ih _)

/-- Whatever blocks are moved over a link, each destination is filled with what arrives before the link is closed or
fails, each block is written up to the first write that is refused, and what one of them leaves is there for the
next. How what arrives is cut into chunks changes none of the outcomes. -/
theorem transfers_run (transfers : List Transfer) (s : Script) :
    Carries s transfers (Link.run s transfers).1 (Link.run s transfers).2 ∧
      ∀ t : Script, s.Alike t → (Link.run t transfers).1 = (Link.run s transfers).1 ∧
        (Link.run s transfers).2.Alike (Link.run t transfers).2 :=
  ⟨carries_run transfers s, fun _ h => h.run transfers⟩

/-- Other chunks, with a closing and a failure in between, give the same outcomes. -/
theorem transfers_run_recut :
    let s : Script := {
      reads := [some [1, 2, 3], some [4], some [], some [5], none, some [6, 7]]
      writes := [some 2, some 9, some 0, none] }
    let t : Script := { s with
      reads := [some [1], some [2, 3, 4], some [], some [5], none, some [6], some [7]] }
    let transfers : List Transfer := [.read [0, 0], .write [10, 11, 12], .read [0, 0, 0], .write [13],
      .read [9, 9], .write [14], .read [], .read [0, 0], .write [15], .read [8]]
    s.Alike t ∧ (Link.run t transfers).1 = (Link.run s transfers).1 ∧
      (Link.run s transfers).1 = [⟨.ok (), [1, 2]⟩, ⟨.ok (), [10, 11, 12]⟩, ⟨.error .disconnected, [3, 4, 0]⟩,
        ⟨.error .disconnected, [13]⟩, ⟨.error .io, [5, 9]⟩, ⟨.error .io, [14]⟩, ⟨.ok (), []⟩, ⟨.ok (), [6, 7]⟩,
        ⟨.ok (), [15]⟩, ⟨.error .disconnected, [8]⟩] := by
  intro s t transfers
  have halike : s.Alike t := by
    refine ⟨rfl, fun count => ?_⟩
    match count with
    | 0 | 1 | 2 => rfl
    | _ + 3 => rfl
  exact ⟨halike, ((transfers_run transfers s).2 t halike).1, by cbv⟩

end Script

end Bench

end Infrared
