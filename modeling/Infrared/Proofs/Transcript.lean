import Infrared.Bench
import Infrared.Proofs.Sampling

namespace Infrared

/-- Surroundings whose clock is set ahead. -/
structure Ahead (ω : Type) where
  offset : UInt32
  world : ω

namespace Ahead

variable {ω : Type} [Platform ω]

def perform : (call : Call) → Ahead ω → call.Answer × Ahead ω
  | .clock, a =>
    let read : UInt32 × ω := Platform.perform .clock a.world
    (read.1 + a.offset, ⟨a.offset, read.2⟩)
  | call, a => ((Platform.perform call a.world).1, ⟨a.offset, (Platform.perform call a.world).2⟩)

instance : Platform (Ahead ω) := ⟨perform, fun a => Platform.patience a.world⟩

theorem sample_eq (pin : UInt8) (offset : UInt32) (world : ω) :
    Platform.sample pin (⟨offset, world⟩ : Ahead ω) =
      (((Platform.sample pin world).1.1, (Platform.sample pin world).1.2 + offset),
        ⟨offset, (Platform.sample pin world).2⟩) := rfl

end Ahead

namespace Station

/-- A recording as it is on a clock that is set ahead. -/
def Recording.ahead (r : Recording) (offset : UInt32) : Recording :=
  { r with start := r.start + offset, last := r.last + offset }

theorem add_sub_add_right (a b offset : UInt32) : a + offset - (b + offset) = a - b := by
  grind

theorem ending?_ahead (s : Station) (r : Recording) (level : Bool) (now offset : UInt32) :
    s.ending? (r.ahead offset) level (now + offset) = s.ending? r level now := by
  rw [ending?, ending?, Recording.ahead]
  dsimp only
  rw [add_sub_add_right, add_sub_add_right]

theorem note_ahead (r : Recording) (width : PulseWidth) (level : Bool) (now offset : UInt32) :
    (r.ahead offset).note width level (now + offset) = (r.note width level now).ahead offset := by
  have hlast : now + offset - (r.ahead offset).last = now - r.last := add_sub_add_right now r.last offset
  rw [Recording.note, Recording.note, hlast]
  change (if level = r.level then _ else _) = _
  split
  · rfl
  · rfl

variable {ω : Type} [Platform ω]

theorem record_ahead (s : Station) (budget : Nat) (r : Recording) (offset : UInt32) (world : ω) :
    s.record budget (r.ahead offset) (⟨offset, world⟩ : Ahead ω) =
      ((s.record budget r world).1, (s.record budget r world).2.1.ahead offset,
        ⟨offset, (s.record budget r world).2.2⟩) := by
  induction budget generalizing r world with
  | zero => rfl
  | succ budget ih =>
      rw [record_succ, record_succ, Ahead.sample_eq]
      simp only [ending?_ahead]
      split
      · rfl
      · rw [note_ahead, ih]

/-- A capture does not depend on how the clock is set. -/
theorem capture_ahead (s : Station) (store : Buffer) (offset : UInt32) (world : ω) :
    s.capture store (⟨offset, world⟩ : Ahead ω) =
      ((s.capture store world).1, (s.capture store world).2.1, (s.capture store world).2.2.1,
        ⟨offset, (s.capture store world).2.2.2⟩) := by
  cases h : s.armed with
  | true =>
      rw [capture_of_armed h, capture_of_armed h]
      have hrecord := s.record_ahead (s.budget world)
        ⟨(s.tape world).time 0, (s.tape world).time 0, (s.tape world).level 0, s.cursor, store.reset⟩
        offset (Platform.sampled s.pin (Platform.tell .disableInterrupts world) 1)
      exact congrArg (fun recorded : End × Recording × Ahead ω =>
        (some (⟨recorded.2.1.count, recorded.1⟩ : Report),
          { s with armed := false, cursor := recorded.2.1.count }, recorded.2.1.pulses,
          recorded.2.2)) hrecord
  | false =>
      rw [capture_of_not_armed h, capture_of_not_armed h]
      rfl

/-- Whether a report and the bytes of a store are what a capture makes of a tape that a sample ends. -/
structure Transcript (s : Station) (room : Nat) (t : Tape) (n : Nat) (report : Report)
    (bytes : List UInt8) : Prop where
  ends : s.EndsAt room t n report.ending
  bytes_eq : bytes = (t.runs n).flatMap s.pulseWidth.encode
  count_eq : report.count = (t.changes n).length
  length_eq : report.count * s.pulseWidth.bytes = bytes.length
  count_le : report.count ≤ room
  lt_pulseTimeout : ∀ run ∈ t.runs n, run < s.pulseTimeout
  sum_lt : (t.runs n).sum < s.signalTimeout ∨ s.signalTimeout = 0 ∧ t.runs n = []

theorem Recording.Transcribes.transcript {s : Station} {r : Recording} {capacity : Nat} {t : Tape} {n : Nat}
    {ending : End} (h : r.Transcribes s capacity t n) (hcursor : s.cursor = 0)
    (hends : s.EndsAt (s.capacity capacity) t n ending) :
    s.Transcript (s.capacity capacity) t n ⟨r.count, ending⟩ r.pulses.filled := by
  obtain ⟨hpulse, hroom, hsum⟩ := hends.goesOn.within
  have hcount : r.count = (t.changes n).length := by rw [h.count_eq, hcursor, Nat.zero_add]
  refine ⟨hends, h.filled_eq, hcount, ?_, Nat.le_trans (Nat.le_of_eq hcount) hroom, hpulse, ?_⟩
  · rw [h.filled_eq, PulseWidth.length_flatMap_encode, Tape.length_runs, hcount]
  · rcases hsum with hnil | hsum
    · by_cases hzero : s.signalTimeout = 0
      · exact .inr ⟨hzero, hnil⟩
      · refine .inl ?_
        rw [hnil, List.sum_nil]
        exact UInt32.pos_iff_ne_zero.mpr hzero
    · exact .inl hsum

/-- The store of a capture has the run lengths of the pin up to the sample that ends the capture, and a sample that
ends it does so as long as the platform waits for it. No account is taken of how the clock is set. -/
theorem capture_transcribes {s : Station} (harmed : s.armed = true) (hcursor : s.cursor = 0)
    (store : Buffer) (world : ω) :
    ∃ report station pulses after, s.capture store world = (some report, station, pulses, after) ∧
      (report.ending ≠ .abandoned → ∃ n, s.Transcript (s.capacity store.capacity) (s.tape world) n report
        pulses.filled) ∧
      (∀ n ending, n ≤ s.budget world →
        s.EndsAt (s.capacity store.capacity) (s.tape world) n ending → report.ending = ending) ∧
      ∀ offset, s.capture store (⟨offset, world⟩ : Ahead ω) =
        (some report, station, pulses, ⟨offset, after⟩) := by
  have hroom : s.roomFor store.capacity = s.capacity store.capacity := by
    rw [roomFor, hcursor, Nat.sub_zero]
  have hahead (offset : UInt32) := s.capture_ahead store offset world
  rcases capture_ends_or_goesOn harmed store world with
    ⟨n, ending, r, hle, hends, hr, hcapture⟩ | ⟨hgoes, r, hr, hcapture⟩
  · rw [hroom] at hends
    simp only [hcapture] at hahead
    refine ⟨_, _, _, _, hcapture, ?_, ?_, hahead⟩
    · intro _
      exact ⟨n, hr.transcript hcursor hends⟩
    · intro m other _ hother
      exact (hother.eq hends).2
  · rw [hroom] at hgoes
    simp only [hcapture] at hahead
    refine ⟨_, _, _, _, hcapture, ?_, ?_, hahead⟩
    · intro hreturned
      exact absurd rfl hreturned
    · intro n ending hle hends
      exact absurd hgoes (hends.not_goesOn (Nat.lt_succ_of_le hle))

/-- A signal of two pulses after which the pin is left alone. -/
theorem capture_transcribes_schedule :
    let armed := (Station.new .bits8 1000 5).armCapture 2 (({} : Bench).schedule [3, 2] 0)
    armed.1.armed = true ∧ armed.1.cursor = 0 ∧
      ∃ station pulses after,
        armed.1.capture (Buffer.new 8) armed.2 = (some ⟨2, .pulseTimeout⟩, station, pulses, after) ∧
          pulses.filled = [3, 2] := by
  intro armed
  have hat : armed.1.EndsAt (armed.1.capacity 8) (armed.1.tape armed.2) 10 .pulseTimeout := by
    decide +kernel
  obtain ⟨report, station, pulses, after, hcapture, hreturned, hends, -⟩ :=
    capture_transcribes (s := armed.1) rfl rfl (Buffer.new 8) armed.2
  have hending := hends 10 .pulseTimeout (by decide) hat
  obtain ⟨n, htranscript⟩ := hreturned (by rw [hending]; decide)
  obtain ⟨rfl, -⟩ := hat.eq htranscript.ends
  have hcount : report.count = 2 := htranscript.count_eq.trans (by decide +kernel)
  obtain ⟨count, ending⟩ := report
  subst hcount hending
  exact ⟨rfl, rfl, station, pulses, after, hcapture, htranscript.bytes_eq.trans (by decide +kernel)⟩

/-- A capture with no time at all ends with the next sample, and not even the sum of no times is below its limit. -/
theorem not_sum_lt_of_no_time :
    let armed := (Station.new .bits16 0 10000).armCapture 2 ({} : Bench)
    armed.1.armed = true ∧ armed.1.cursor = 0 ∧
      ∃ n station pulses after,
        armed.1.capture (Buffer.new 8) armed.2 = (some ⟨0, .signalTimeout⟩, station, pulses, after) ∧
          armed.1.EndsAt (armed.1.capacity 8) (armed.1.tape armed.2) n .signalTimeout ∧
            pulses.filled = ((armed.1.tape armed.2).runs n).flatMap armed.1.pulseWidth.encode ∧
              ¬((armed.1.tape armed.2).runs n).sum < armed.1.signalTimeout := by
  intro armed
  have hat : armed.1.EndsAt (armed.1.capacity 8) (armed.1.tape armed.2) 1 .signalTimeout := by
    decide +kernel
  rcases capture_ends_or_goesOn (s := armed.1) rfl (Buffer.new 8) armed.2 with
    ⟨n, ending, r, -, hends, hr, hcapture⟩ | ⟨hgoes, -⟩
  · obtain ⟨rfl, rfl⟩ := hat.eq hends
    have hcount : r.count = 0 := hr.count_eq.trans (by rw [Tape.changes_one]; rfl)
    rw [hcount] at hcapture
    refine ⟨rfl, rfl, 1, _, _, _, hcapture, hat, hr.filled_eq, ?_⟩
    rw [Tape.runs_one]
    decide
  · exact absurd hgoes (hat.not_goesOn (Nat.lt_succ_of_le (by decide)))

end Station

end Infrared
