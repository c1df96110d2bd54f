import Infrared.Proofs.Bench.Signal
import Infrared.Proofs.History
import Infrared.Proofs.Sampling

namespace Infrared

/-- Whether a tape was read on a clock that shows the low 32 bits of some times, each of them later than the one
before, at most by a step. -/
structure Tape.Keeps (t : Tape) (times : Nat → Nat) (step : Nat) : Prop where
  time_eq : ∀ n, t.time n = UInt32.ofNat (times n)
  lt : ∀ n, times n < times (n + 1)
  le : ∀ n, times (n + 1) ≤ times n + step

namespace Tape.Keeps

variable {t : Tape} {times : Nat → Nat} {step : Nat}

theorem add_le (h : t.Keeps times step) (n : Nat) : times 0 + n ≤ times n := by
  induction n with
  | zero => exact Nat.le_refl _
  | succ n ih => exact Nat.succ_le_of_lt (Nat.lt_of_le_of_lt ih (h.lt n))

theorem time_sub_time_zero (h : t.Keeps times step) {n : Nat} (hlt : times n < times 0 + UInt32.size) :
    (t.time n - t.time 0).toNat = times n - times 0 := by
  have hle := h.add_le n
  rw [h.time_eq, h.time_eq]
  exact toNat_ofNat_sub_ofNat (by omega) (by omega)

end Tape.Keeps

namespace Station

variable {s : Station} {room : Nat} {t : Tape} {times : Nat → Nat} {step : Nat}

/-- While no sample ends a capture, the time since it began is below its limit. -/
theorem GoesOn.lt_signalTimeout (h : t.Keeps times step)
    (hlimit : s.signalTimeout.toNat + step ≤ UInt32.size) {n : Nat} (hpos : 0 < n)
    (hgoes : s.GoesOn room t (n + 1)) : times n < times 0 + s.signalTimeout.toNat := by
  induction n with
  | zero => exact absurd hpos (Nat.lt_irrefl 0)
  | succ n ih =>
      obtain ⟨hbelow, -⟩ := endsAt?_eq_none_iff.mp (hgoes (n + 1) hpos (Nat.lt_succ_self _))
      rw [UInt32.lt_iff_toNat_lt] at hbelow
      have hlast : times n < times 0 + max 1 s.signalTimeout.toNat := by
        cases n with
        | zero => omega
        | succ n =>
            have hearlier := ih (Nat.succ_pos n) (hgoes.of_le (Nat.le_succ _))
            omega
      -- One step from below the limit cannot bring the clock round.
      have hstep := h.le n
      have hle := h.add_le (n + 1)
      rw [h.time_sub_time_zero (by omega)] at hbelow
      omega

theorem not_goesOn_of_keeps (h : t.Keeps times step)
    (hlimit : s.signalTimeout.toNat + step ≤ UInt32.size) :
    ¬s.GoesOn room t (max 1 s.signalTimeout.toNat + 1) := by
  intro hgoes
  have hlt := hgoes.lt_signalTimeout h hlimit (by omega)
  have hle := h.add_le (max 1 s.signalTimeout.toNat)
  omega

theorem exists_endsAt_of_not_goesOn {n : Nat} (h : ¬s.GoesOn room t (n + 1)) :
    ∃ m ending, m ≤ n ∧ s.EndsAt room t m ending := by
  induction n with
  | zero => exact absurd (goesOn_one s room t) h
  | succ n ih =>
      by_cases hgoes : s.GoesOn room t (n + 1)
      · cases hends : s.endsAt? room t (n + 1) with
        | none => exact absurd (hgoes.succ hends) h
        | some ending => exact ⟨n + 1, ending, Nat.le_refl _, Nat.succ_pos n, hgoes, hends⟩
      · obtain ⟨m, ending, hle, hends⟩ := ih hgoes
        exact ⟨m, ending, Nat.le_succ_of_le hle, hends⟩

variable {ω : Type} [Platform ω]

theorem adds_sampled (pin : UInt8) (world : Traced ω) (n : Nat) :
    Traced.Adds (samples pin n) world (Platform.sampled pin world n) := by
  induction n with
  | zero => exact Traced.Adds.nil
  | succ n ih =>
      rw [samples, List.replicate_succ', List.flatten_append, List.flatten_singleton]
      exact ih.trans (Traced.adds_sample pin (Platform.sampled pin world n))

/-- Some sample ends a capture, and after its first one it takes no more of them than its limit has microseconds, or
one if the limit is zero. It ends by itself if the platform waits for that long. -/
theorem capture_ends_in_time {s : Station} {world : Traced ω} {times : Nat → Nat} {step : Nat}
    (hclock : (s.tape world).Keeps times step) (hlimit : s.signalTimeout.toNat + step ≤ UInt32.size)
    (store : Buffer) :
    (∃ n ending, n ≤ max 1 s.signalTimeout.toNat ∧
        s.EndsAt (s.roomFor store.capacity) (s.tape world) n ending) ∧
      (s.armed = true → max 1 s.signalTimeout.toNat ≤ s.budget world →
        ∃ report, (s.capture store world).1 = some report ∧ report.ending ≠ .abandoned) ∧
      ∃ count, count ≤ 1 + max 1 s.signalTimeout.toNat ∧
        Traced.Adds (.disableInterrupts :: samples s.pin count) world (s.capture store world).2.2.2 := by
  have htell := Traced.adds_tell .disableInterrupts world
  have hnot : ¬s.GoesOn (s.roomFor store.capacity) (s.tape world) (max 1 s.signalTimeout.toNat + 1) :=
    not_goesOn_of_keeps hclock hlimit
  obtain ⟨n, ending, hle, hends⟩ := exists_endsAt_of_not_goesOn hnot
  refine ⟨⟨n, ending, hle, hends⟩, ?_⟩
  cases harmed : s.armed with
  | false =>
      refine ⟨by simp, 0, Nat.zero_le _, ?_⟩
      rw [capture_of_not_armed harmed]
      exact htell
  | true =>
      rcases capture_ends_or_goesOn harmed store world with
        ⟨m, other, r, -, hother, -, hcapture⟩ | ⟨hgoes, r, -, hcapture⟩
      · obtain ⟨rfl, rfl⟩ := hends.eq hother
        rw [hcapture]
        refine ⟨fun _ _ => ⟨_, rfl, hends.ne_abandoned⟩, m + 1, by omega, ?_⟩
        exact htell.trans (adds_sampled s.pin _ (m + 1))
      · have hshort : s.budget world + 1 ≤ n :=
          Nat.le_of_not_lt fun hlt => hends.not_goesOn hlt hgoes
        rw [hcapture]
        refine ⟨fun _ hpatience => absurd hpatience (by omega), s.budget world + 1, by omega, ?_⟩
        exact htell.trans (adds_sampled s.pin _ (s.budget world + 1))

end Station

namespace Bench

open Platform (sampled)

theorem now_sampled (pin : UInt8) (b : Bench) (n : Nat) :
    (sampled pin b n).now = b.now + n * b.tick ∧ (sampled pin b n).tick = b.tick := by
  induction n with
  | zero => exact ⟨by rw [Nat.zero_mul]; rfl, rfl⟩
  | succ n ih =>
      obtain ⟨hnow, htick⟩ := ih
      refine ⟨?_, htick⟩
      change (sampled pin b n).now + (sampled pin b n).tick = _
      rw [hnow, htick, Nat.succ_mul, Nat.add_assoc]

theorem time_tape (s : Station) (b : Bench) (n : Nat) :
    (s.tape b).time n = UInt32.ofNat (b.now + n * b.tick) :=
  congrArg UInt32.ofNat (now_sampled s.pin (Platform.tell .disableInterrupts b) n).1

theorem keeps_tape (s : Station) {b : Bench} (h : 0 < b.tick) :
    (s.tape b).Keeps (fun n => b.now + n * b.tick) b.tick := by
  refine ⟨time_tape s b, ?_, ?_⟩
  · intro n
    rw [Nat.succ_mul]
    omega
  · intro n
    rw [Nat.succ_mul]
    omega

theorem size_le_budget (s : Station) (b : Bench) : UInt32.size ≤ s.budget b :=
  Nat.le_add_left _ _

end Bench

namespace Traced

variable {ω : Type} [Platform ω]

theorem world_sampled (pin : UInt8) (t : Traced ω) (n : Nat) :
    (Platform.sampled pin t n).world = Platform.sampled pin t.world n := by
  induction n with
  | zero => rfl
  | succ n ih => exact congrArg (fun world => (Platform.sample pin world).2) ih

theorem tape_eq (s : Station) (t : Traced ω) : s.tape t = s.tape t.world := by
  have hsample (n : Nat) := congrArg (fun world => (Platform.sample s.pin world).1)
    (world_sampled s.pin (Platform.tell .disableInterrupts t) n)
  simp only [Station.tape, Platform.tape, Tape.mk.injEq]
  constructor
  · funext n
    exact congrArg Prod.fst (hsample n)
  · funext n
    exact congrArg Prod.snd (hsample n)

end Traced

namespace Station

/-- A clock that comes round during the capture. -/
theorem capture_ends_in_time_wrapping :
    let armed := (Station.new .bits16 100 4000).armCapture 2
      (⟨{ now := 4294967290, tick := 7 }, []⟩ : Traced Bench)
    (armed.1.tape armed.2).Keeps (fun n => 4294967290 + n * 7) 7 ∧ 100 + 7 ≤ UInt32.size ∧
      max 1 100 ≤ armed.1.budget armed.2 ∧ armed.1.armed = true ∧
        ∃ report count, (armed.1.capture (Buffer.new 4) armed.2).1 = some report ∧
          report.ending ≠ .abandoned ∧ count ≤ 101 ∧
            Traced.Adds (.disableInterrupts :: samples 2 count) armed.2
              (armed.1.capture (Buffer.new 4) armed.2).2.2.2 := by
  intro armed
  have hclock : (armed.1.tape armed.2).Keeps (fun n => 4294967290 + n * 7) 7 := by
    rw [Traced.tape_eq]
    exact Bench.keeps_tape armed.1 (b := armed.2.world) (by decide)
  have hlimit : 100 + 7 ≤ UInt32.size := by decide
  have hpatience : max 1 100 ≤ armed.1.budget armed.2 :=
    Nat.le_trans (by decide) (Bench.size_le_budget armed.1 armed.2.world)
  obtain ⟨-, hreturns, count, hcount, hcalls⟩ := capture_ends_in_time hclock hlimit (Buffer.new 4)
  obtain ⟨report, hreport, hending⟩ := hreturns rfl hpatience
  exact ⟨hclock, hlimit, hpatience, rfl, report, count, hreport, hending, hcount, hcalls⟩

end Station

end Infrared
