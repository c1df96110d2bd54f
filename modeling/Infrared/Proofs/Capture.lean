import Infrared.Board
import Infrared.Buffer.Lemmas

namespace Infrared.Station

/-- Whether the store of a capture holds as many pulses as were counted. -/
def Recording.Counts (width : PulseWidth) (r : Recording) : Prop :=
  r.count * width.bytes = r.pulses.filled.length

/-- Whether two captures under way differ at most in bytes that their stores have not taken in. -/
structure Recording.Alike (r q : Recording) : Prop where
  start_eq : q.start = r.start
  last_eq : q.last = r.last
  level_eq : q.level = r.level
  count_eq : q.count = r.count
  filled_eq : q.pulses.filled = r.pulses.filled
  capacity_eq : q.pulses.capacity = r.pulses.capacity

theorem count_lt_capacity_of_ending {s : Station} {r : Recording} {level : Bool} {now : UInt32}
    (hending : s.ending? r level now = none) (hlevel : level ≠ r.level) :
    r.count < s.capacity r.pulses.capacity := by
  unfold ending? at hending
  split at hending
  · simp at hending
  · split at hending
    · simp at hending
    · split at hending
      · simp at hending
      · rename_i hle
        exact Nat.lt_of_not_le hle

theorem bytes_le_left_of_length_filled_le {s : Station} {r : Recording}
    (h : r.pulses.filled.length ≤ r.count * s.pulseWidth.bytes)
    {level : Bool} {now : UInt32} (hending : s.ending? r level now = none)
    (hlevel : level ≠ r.level) : s.pulseWidth.bytes ≤ r.pulses.left := by
  have hroom := count_lt_capacity_of_ending hending hlevel
  have hcount : r.count + 1 ≤ r.pulses.capacity / s.pulseWidth.bytes := by
    rw [capacity, PulseWidth.capacity] at hroom
    omega
  have hbytes : (r.count + 1) * s.pulseWidth.bytes ≤ r.pulses.capacity :=
    (Nat.le_div_iff_mul_le s.pulseWidth.bytes_pos).mp hcount
  have hsum := r.pulses.size_add_left
  rw [← Buffer.length_filled] at hsum
  rw [Nat.succ_mul] at hbytes
  omega

theorem bytes_le_left_of_ending {s : Station} {r : Recording} (h : r.Counts s.pulseWidth)
    {level : Bool} {now : UInt32} (hending : s.ending? r level now = none)
    (hlevel : level ≠ r.level) : s.pulseWidth.bytes ≤ r.pulses.left :=
  bytes_le_left_of_length_filled_le (Nat.le_of_eq h.symm) hending hlevel

theorem filled_writeSpare_skip (store : Buffer) {bytes : List UInt8} (h : bytes.length ≤ store.left) :
    ((store.writeSpare bytes).skip bytes.length).filled = store.filled ++ bytes :=
  Buffer.filled_append store h

theorem counts_note {s : Station} {r : Recording} (h : r.Counts s.pulseWidth) {level : Bool}
    {now : UInt32} (hending : s.ending? r level now = none) :
    (r.note s.pulseWidth level now).Counts s.pulseWidth := by
  by_cases hlevel : level = r.level
  · rw [Recording.note, if_pos hlevel]
    exact h
  · have hleft := bytes_le_left_of_ending h hending hlevel
    have hlength := s.pulseWidth.length_encode (now - r.last)
    have hfilled := filled_writeSpare_skip r.pulses (Nat.le_trans (Nat.le_of_eq hlength) hleft)
    rw [hlength] at hfilled
    rw [Recording.note, if_neg hlevel, Recording.Counts, hfilled, List.length_append, hlength, ← h,
      Nat.succ_mul]

theorem Recording.Alike.note {s : Station} {r q : Recording} (h : r.Alike q)
    (hcounts : r.Counts s.pulseWidth) {level : Bool} {now : UInt32}
    (hending : s.ending? r level now = none) :
    (r.note s.pulseWidth level now).Alike (q.note s.pulseWidth level now) := by
  by_cases hlevel : level = r.level
  · rw [Recording.note, Recording.note, if_pos hlevel, if_pos (hlevel.trans h.level_eq.symm)]
    exact h
  · have hleft := bytes_le_left_of_ending hcounts hending hlevel
    have hlength := s.pulseWidth.length_encode (now - r.last)
    have hleft' : s.pulseWidth.bytes ≤ q.pulses.left := by
      have hsum := r.pulses.size_add_left
      have hsum' := q.pulses.size_add_left
      rw [← Buffer.length_filled, h.filled_eq, h.capacity_eq, Buffer.length_filled] at hsum'
      omega
    have hfilled := filled_writeSpare_skip r.pulses (Nat.le_trans (Nat.le_of_eq hlength) hleft)
    have hfilled' := filled_writeSpare_skip q.pulses (Nat.le_trans (Nat.le_of_eq hlength) hleft')
    rw [hlength] at hfilled hfilled'
    rw [Recording.note, Recording.note, if_neg hlevel,
      if_neg fun heq => hlevel (heq.trans h.level_eq)]
    refine ⟨h.start_eq, rfl, rfl, congrArg (· + 1) h.count_eq, ?_, h.capacity_eq⟩
    rw [h.last_eq, hfilled, hfilled', h.filled_eq]

theorem ending?_eq_of_alike {s : Station} {r q : Recording} (h : r.Alike q) (level : Bool)
    (now : UInt32) : s.ending? q level now = s.ending? r level now := by
  simp only [ending?, h.start_eq, h.last_eq, h.level_eq, h.count_eq, h.capacity_eq]

variable {ω : Type} [Platform ω]

theorem record_succ (s : Station) (budget : Nat) (r : Recording) (world : ω) :
    s.record (budget + 1) r world =
      match s.ending? r (Platform.sample s.pin world).1.1 (Platform.sample s.pin world).1.2 with
      | some ending => (ending, r, (Platform.sample s.pin world).2)
      | none =>
        s.record budget (r.note s.pulseWidth (Platform.sample s.pin world).1.1
          (Platform.sample s.pin world).1.2) (Platform.sample s.pin world).2 := rfl

theorem record_succ_of_some {s : Station} {r : Recording} {world : ω} {ending : End} (budget : Nat)
    (h : s.ending? r (Platform.sample s.pin world).1.1 (Platform.sample s.pin world).1.2 = some ending) :
    s.record (budget + 1) r world = (ending, r, (Platform.sample s.pin world).2) := by
  rw [record_succ, h]

theorem record_succ_of_none {s : Station} {r : Recording} {world : ω} (budget : Nat)
    (h : s.ending? r (Platform.sample s.pin world).1.1 (Platform.sample s.pin world).1.2 = none) :
    s.record (budget + 1) r world =
      s.record budget (r.note s.pulseWidth (Platform.sample s.pin world).1.1
        (Platform.sample s.pin world).1.2) (Platform.sample s.pin world).2 := by
  rw [record_succ, h]

theorem counts_record {s : Station} (budget : Nat) {r : Recording} (h : r.Counts s.pulseWidth)
    (world : ω) : (s.record budget r world).2.1.Counts s.pulseWidth := by
  induction budget generalizing r world with
  | zero => exact h
  | succ budget ih =>
      rw [record_succ]
      split
      · exact h
      · rename_i hending
        exact ih (counts_note h hending) _

theorem record_eq_of_alike {s : Station} (budget : Nat) {r q : Recording} (h : r.Alike q)
    (hcounts : r.Counts s.pulseWidth) (world : ω) :
    (s.record budget q world).1 = (s.record budget r world).1 ∧
      (s.record budget r world).2.1.Alike (s.record budget q world).2.1 ∧
      (s.record budget q world).2.2 = (s.record budget r world).2.2 := by
  induction budget generalizing r q world with
  | zero => exact ⟨rfl, h, rfl⟩
  | succ budget ih =>
      rw [record_succ, record_succ, ending?_eq_of_alike h]
      split
      · exact ⟨rfl, h, rfl⟩
      · rename_i hending
        exact ih (h.note hcounts hending) (counts_note hcounts hending) _

theorem capture_of_armed {s : Station} (h : s.armed = true) (store : Buffer) (world : ω) :
    s.capture store world =
      let sampled := Platform.sample s.pin (Platform.tell .disableInterrupts world)
      let recorded := s.record (Platform.patience sampled.2)
        ⟨sampled.1.2, sampled.1.2, sampled.1.1, s.cursor, store.reset⟩ sampled.2
      (some ⟨recorded.2.1.count, recorded.1⟩,
        { s with armed := false, cursor := recorded.2.1.count }, recorded.2.1.pulses, recorded.2.2) := by
  simp only [capture, h]
  rfl

theorem capture_of_not_armed {s : Station} (h : s.armed = false) (store : Buffer) (world : ω) :
    s.capture store world = (none, s, store, Platform.tell .disableInterrupts world) := by
  simp only [capture, h]
  rfl

/-- What a capture records does not depend on what its store held before. -/
theorem capture_eq_of_capacity_eq {s : Station} (harmed : s.armed = true) (hcursor : s.cursor = 0)
    {store other : Buffer} (h : other.capacity = store.capacity) (world : ω) :
    (s.capture other world).1 = (s.capture store world).1 ∧
      (s.capture other world).2.1 = (s.capture store world).2.1 ∧
      (s.capture other world).2.2.1.filled = (s.capture store world).2.2.1.filled ∧
      (s.capture other world).2.2.1.capacity = (s.capture store world).2.2.1.capacity ∧
      (s.capture other world).2.2.2 = (s.capture store world).2.2.2 := by
  let sampled := Platform.sample s.pin (Platform.tell .disableInterrupts world)
  have halike : Recording.Alike ⟨sampled.1.2, sampled.1.2, sampled.1.1, s.cursor, store.reset⟩
      ⟨sampled.1.2, sampled.1.2, sampled.1.1, s.cursor, other.reset⟩ :=
    ⟨rfl, rfl, rfl, rfl, by rw [Buffer.filled_reset, Buffer.filled_reset], h⟩
  have hcounts : Recording.Counts s.pulseWidth
      ⟨sampled.1.2, sampled.1.2, sampled.1.1, s.cursor, store.reset⟩ := by
    simp [Recording.Counts, hcursor]
  obtain ⟨hending, hrecording, hworld⟩ :=
    record_eq_of_alike (Platform.patience sampled.2) halike hcounts sampled.2
  rw [capture_of_armed harmed, capture_of_armed harmed]
  refine ⟨?_, ?_, hrecording.filled_eq, hrecording.capacity_eq, hworld⟩
  · simp only [sampled] at hending hrecording
    simp only [hending, hrecording.count_eq]
  · simp only [sampled] at hrecording
    simp only [hrecording.count_eq]

theorem count_mul_bytes {s : Station} (harmed : s.armed = true) (hcursor : s.cursor = 0)
    {report : Report} (store : Buffer) (world : ω) (h : (s.capture store world).1 = some report) :
    report.count * s.pulseWidth.bytes = (s.capture store world).2.2.1.filled.length := by
  rw [capture_of_armed harmed] at h ⊢
  simp only [Option.some.injEq] at h
  subst h
  apply counts_record
  simp [Recording.Counts, hcursor]

theorem capacity_note (r : Recording) (width : PulseWidth) (level : Bool) (now : UInt32) :
    (r.note width level now).pulses.capacity = r.pulses.capacity := by
  simp only [Recording.note]
  split
  · rfl
  · rfl

theorem capacity_record (s : Station) (budget : Nat) (r : Recording) (world : ω) :
    (s.record budget r world).2.1.pulses.capacity = r.pulses.capacity := by
  induction budget generalizing r world with
  | zero => rfl
  | succ budget ih =>
      rw [record_succ]
      split
      · rfl
      · rw [ih, capacity_note]

@[simp] theorem capacity_capture (s : Station) (store : Buffer) (world : ω) :
    (s.capture store world).2.2.1.capacity = store.capacity := by
  cases h : s.armed with
  | true =>
      rw [capture_of_armed h]
      exact capacity_record _ _ _ _
  | false => rw [capture_of_not_armed h]

/-- Two captures over stores of the same capacity come to the same report and to the same pulses. -/
theorem exists_capture_eq {s : Station} (harmed : s.armed = true) (hcursor : s.cursor = 0)
    {store other : Buffer} (h : other.capacity = store.capacity) (world : ω) :
    ∃ report station pulses pulses' after,
      s.capture store world = (some report, station, pulses, after) ∧
        s.capture other world = (some report, station, pulses', after) ∧
        pulses'.filled = pulses.filled ∧ pulses'.capacity = other.capacity ∧
        report.count * s.pulseWidth.bytes = pulses.filled.length ∧
        pulses.filled.length ≤ store.capacity := by
  obtain ⟨hreport, hstation, hfilled, -, hworld⟩ := capture_eq_of_capacity_eq harmed hcursor h world
  have hroom := capacity_capture s other world
  have hsum := (s.capture store world).2.2.1.size_add_left
  rw [capacity_capture, ← Buffer.length_filled] at hsum
  obtain ⟨report, hsome⟩ : ∃ report, (s.capture store world).1 = some report := by
    rw [capture_of_armed harmed]
    exact ⟨_, rfl⟩
  have hcount := count_mul_bytes harmed hcursor store world hsome
  refine ⟨report, (s.capture store world).2.1, (s.capture store world).2.2.1,
    (s.capture other world).2.2.1, (s.capture store world).2.2.2, ?_, ?_, hfilled, hroom, hcount, ?_⟩
  · rw [← hsome]
  · rw [← hsome, ← hreport, ← hstation, ← hworld]
  · omega

end Infrared.Station
