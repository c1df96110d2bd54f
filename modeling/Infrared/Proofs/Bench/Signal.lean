import Infrared.Bench
import Infrared.Proofs.Capture
import Infrared.Proofs.Clock

namespace Infrared

namespace Bench

namespace Line

/-- The line after an edge of a signal, with the pulses that follow. -/
def within (level : Bool) (edge : Nat) (pulses : List UInt32) : Line :=
  ⟨level, (edgeTimes edge pulses).tail⟩

variable {level : Bool} {edge now : Nat} {pulse : UInt32} {pulses : List UInt32}

theorem edgeTimes_eq_cons (start : Nat) (pulses : List UInt32) :
    edgeTimes start pulses = start :: (edgeTimes start pulses).tail := by
  cases pulses with
  | nil => rfl
  | cons pulse pulses => rfl

theorem settle_within_of_lt (h : ∀ pulse ∈ pulses.head?, now < edge + pulse.toNat) :
    (within level edge pulses).settle now = within level edge pulses := by
  cases pulses with
  | nil => rfl
  | cons pulse pulses =>
      have hlt := h pulse rfl
      rw [settle, within, edgeTimes, List.tail_cons, edgeTimes_eq_cons, turn,
        if_neg (Nat.not_le.mpr hlt)]

theorem settle_cons {edges : List Nat} (h : edge ≤ now) :
    (⟨level, edge :: edges⟩ : Line).settle now = (⟨!level, edges⟩ : Line).settle now := by
  simp only [settle, turn, if_pos h]

theorem settle_within_of_le (h : edge + pulse.toNat ≤ now)
    (hnext : ∀ next ∈ pulses.head?, now < edge + pulse.toNat + next.toNat) :
    (within level edge (pulse :: pulses)).settle now =
      within (!level) (edge + pulse.toNat) pulses := by
  rw [← settle_within_of_lt hnext, within, edgeTimes, List.tail_cons, edgeTimes_eq_cons,
    settle_cons h]
  rfl

theorem settle_schedule (l : Line) (now : Nat) (hfirst : ∀ pulse ∈ pulses.head?, 0 < pulse.toNat) :
    (l.schedule now now pulses).settle now = within (!l.level now) now pulses := by
  have hnext : ∀ pulse ∈ pulses.head?, now < now + pulse.toNat := by
    intro pulse hpulse
    have hpos := hfirst pulse hpulse
    omega
  rw [← settle_within_of_lt hnext, schedule, edgeTimes_eq_cons, settle_cons (Nat.le_refl now)]
  rfl

theorem getLastD_edgeTimes (start : Nat) (pulses : List UInt32) :
    (edgeTimes start pulses).getLastD 0 = start + (pulses.map UInt32.toNat).sum := by
  induction pulses generalizing start with
  | nil => rfl
  | cons pulse pulses ih =>
      have hlast := ih (start + pulse.toNat)
      rw [edgeTimes_eq_cons] at hlast
      rw [edgeTimes, edgeTimes_eq_cons, List.map_cons, List.sum_cons, ← Nat.add_assoc, ← hlast]
      rfl

theorem add_sum_le_max (h : edge ≤ now) :
    edge + (pulses.map UInt32.toNat).sum ≤ max (within level edge pulses).restsFrom now := by
  cases pulses with
  | nil => exact Nat.le_trans h (Nat.le_max_right _ _)
  | cons pulse pulses =>
      have hlast := getLastD_edgeTimes (edge + pulse.toNat) pulses
      rw [restsFrom, within, edgeTimes, List.tail_cons, hlast, List.map_cons, List.sum_cons,
        ← Nat.add_assoc]
      exact Nat.le_max_left _ _

end Line

/-- The samples until an edge is seen that lies ahead. -/
def samplesTo (tick span : Nat) : Nat :=
  (span + tick - 1) / tick

/-- The durations that are heard of pulses, the first of which began some time before it was noticed. -/
def heard (tick : Nat) : Nat → List UInt32 → List Nat
  | _, [] => []
  | lag, pulse :: pulses =>
    samplesTo tick (pulse.toNat - lag) * tick ::
      heard tick (lag + samplesTo tick (pulse.toNat - lag) * tick - pulse.toNat) pulses

theorem samplesTo_mul {tick : Nat} (h : 0 < tick) (span : Nat) :
    span ≤ samplesTo tick span * tick ∧ samplesTo tick span * tick < span + tick := by
  have hle := Nat.div_mul_le_self (span + tick - 1) tick
  have hlt := Nat.lt_div_mul_add h (a := span + tick - 1)
  rw [samplesTo]
  omega

theorem heard_one (pulses : List UInt32) : heard 1 0 pulses = pulses.map UInt32.toNat := by
  induction pulses with
  | nil => rfl
  | cons pulse pulses ih =>
      have hsamples : samplesTo 1 (pulse.toNat - 0) * 1 = pulse.toNat := by
        rw [samplesTo, Nat.div_one]
        omega
      rw [heard, hsamples, Nat.zero_add, Nat.sub_self, ih, List.map_cons]

@[simp] theorem length_heard (tick lag : Nat) (pulses : List UInt32) :
    (heard tick lag pulses).length = pulses.length := by
  induction pulses generalizing lag with
  | nil => rfl
  | cons pulse pulses ih => rw [heard, List.length_cons, ih, List.length_cons]

theorem sample_eq (pin : UInt8) (b : Bench) :
    Platform.sample pin b = (((b.line.settle b.now).idle, UInt32.ofNat b.now),
      { b with line := b.line.settle b.now, lastRead := some pin, now := b.now + b.tick }) := rfl

theorem le_patience {b : Bench} (h : 0 < b.tick) :
    max b.line.restsFrom b.now + b.tick + UInt32.size * b.tick ≤
      b.now + Platform.patience b * b.tick := by
  have hlt := Nat.lt_div_mul_add h (a := b.line.restsFrom - b.now)
  change _ ≤ b.now + ((b.line.restsFrom - b.now) / b.tick + 2 + UInt32.size) * b.tick
  rw [Nat.add_mul, Nat.add_mul]
  omega

end Bench

namespace Station

-- The budget of the simulated platform is a number that must not be evaluated, so it is a variable here.
theorem capture_eq_record {ω : Type} [Platform ω] {s : Station} (h : s.armed = true) {world w : ω}
    {level : Bool} {now : UInt32} {budget : Nat} (hsample : Platform.sample s.pin
      (Platform.tell .disableInterrupts world) = ((level, now), w))
    (hbudget : Platform.patience w = budget) (store : Buffer) :
    s.capture store world =
      let recorded := s.record budget ⟨now, now, level, s.cursor, store.reset⟩ w
      (some ⟨recorded.2.1.count, recorded.1⟩,
        { s with armed := false, cursor := recorded.2.1.count }, recorded.2.1.pulses, recorded.2.2) := by
  rw [capture_of_armed h, hsample, ← hbudget]

open Bench

/-- Whether a recording is at an edge of a signal: when the signal began, when the edge was noticed and when it
was, and the pulses that follow. -/
structure Recording.Hears (r : Recording) (start last edge : Nat) (pulses : List UInt32) (b : Bench) :
    Prop where
  start_eq : r.start = UInt32.ofNat start
  last_eq : r.last = UInt32.ofNat last
  line_eq : b.line = .within r.level edge pulses
  start_le : start ≤ edge
  edge_le : edge ≤ last
  last_le : last ≤ b.now

variable {s : Station} {r : Recording} {b : Bench} {start last edge : Nat} {pulse : UInt32}
  {pulses : List UInt32}

theorem ending?_of_hears (h : r.Hears start last edge pulses b)
    (hsignal : b.now < start + s.signalTimeout.toNat) (hpulse : b.now < last + s.pulseTimeout.toNat)
    (level : Bool) :
    s.ending? r level (UInt32.ofNat b.now) =
      if level = r.level then none
      else if s.capacity r.pulses.capacity ≤ r.count then some .bufferOverflow else none := by
  obtain ⟨hstart, hlast, -, hbegun, hseen, hnow⟩ := h
  have hsignalLimit := s.signalTimeout.toNat_lt
  have hpulseLimit := s.pulseTimeout.toNat_lt
  have hsinceStart := toNat_ofNat_sub_ofNat (a := start) (b := b.now) (by omega)
    (by simp only [UInt32.size]; omega)
  have hsinceLast := toNat_ofNat_sub_ofNat (a := last) (b := b.now) hnow
    (by simp only [UInt32.size]; omega)
  have hnoSignal : ¬s.signalTimeout ≤ UInt32.ofNat b.now - UInt32.ofNat start := by
    rw [UInt32.le_iff_toNat_le, hsinceStart]
    omega
  have hnoPulse : ¬s.pulseTimeout ≤ UInt32.ofNat b.now - UInt32.ofNat last := by
    rw [UInt32.le_iff_toNat_le, hsinceLast]
    omega
  rw [ending?, hstart, hlast, if_neg hnoSignal, if_neg hnoPulse]

namespace Recording.Hears

theorem sample_eq (h : r.Hears start last edge pulses b)
    (hquiet : ∀ next ∈ pulses.head?, b.now < edge + next.toNat) (pin : UInt8) :
    Platform.sample pin b = ((r.level, UInt32.ofNat b.now),
      { b with lastRead := some pin, now := b.now + b.tick }) := by
  have hsettle : b.line.settle b.now = b.line := by
    rw [h.line_eq]
    exact Line.settle_within_of_lt hquiet
  have hlevel : b.line.idle = r.level := by rw [h.line_eq]; rfl
  rw [Bench.sample_eq, hsettle, hlevel]

theorem later (h : r.Hears start last edge pulses b) (pin : UInt8) :
    r.Hears start last edge pulses { b with lastRead := some pin, now := b.now + b.tick } :=
  ⟨h.start_eq, h.last_eq, h.line_eq, h.start_le, h.edge_le, Nat.le_add_right_of_le h.last_le⟩

theorem record_eq (h : r.Hears start last edge pulses b)
    (hquiet : ∀ next ∈ pulses.head?, b.now < edge + next.toNat)
    (hnone : s.ending? r r.level (UInt32.ofNat b.now) = none) (budget : Nat) :
    s.record (budget + 1) r b =
      s.record budget r { b with lastRead := some s.pin, now := b.now + b.tick } := by
  have hsame : r.note s.pulseWidth r.level (UInt32.ofNat b.now) = r := by
    rw [Recording.note, if_pos rfl]
  rw [record_succ, h.sample_eq hquiet]
  simp only [hnone, hsame]

end Recording.Hears

/-- Nothing happens before the next edge. -/
theorem exists_record_wait (samples budget : Nat) (h : r.Hears start last edge (pulse :: pulses) b)
    (hpulse : pulse.toNat < s.pulseTimeout.toNat)
    (hsignal : edge + pulse.toNat < start + s.signalTimeout.toNat)
    (hbefore : ∀ i < samples, b.now + i * b.tick < edge + pulse.toNat) :
    ∃ c, s.record (samples + budget) r b = s.record budget r c ∧
      r.Hears start last edge (pulse :: pulses) c ∧ c.now = b.now + samples * b.tick ∧
      c.tick = b.tick := by
  induction samples generalizing b with
  | zero => exact ⟨b, by rw [Nat.zero_add], h, by omega, rfl⟩
  | succ samples ih =>
      have hnow := hbefore 0 (by omega)
      have hseen := h.edge_le
      rw [Nat.zero_mul, Nat.add_zero] at hnow
      have hquiet : ∀ next ∈ (pulse :: pulses).head?, b.now < edge + next.toNat := by
        intro next hnext
        obtain rfl : pulse = next := Option.some.inj hnext
        exact hnow
      have hnone := ending?_of_hears (s := s) h (by omega) (by omega) r.level
      rw [if_pos rfl] at hnone
      obtain ⟨c, hrecord, hc, hnowEq, htick⟩ := ih (h.later s.pin) (by
        intro i hi
        have hlater := hbefore (i + 1) (by omega)
        rw [Nat.succ_mul] at hlater
        dsimp only
        omega)
      refine ⟨c, ?_, hc, ?_, htick⟩
      · rw [← hrecord, Nat.add_right_comm, h.record_eq hquiet hnone]
      · rw [hnowEq, Nat.succ_mul]
        dsimp only
        omega

/-- At an edge a pulse is recorded, unless there is no room for it. -/
theorem exists_record_edge (budget : Nat) (h : r.Hears start last edge (pulse :: pulses) b)
    (hcounts : r.Counts s.pulseWidth) (hdue : edge + pulse.toNat ≤ b.now)
    (hnext : ∀ next ∈ pulses.head?, b.now < edge + pulse.toNat + next.toNat)
    (hpulse : b.now < last + s.pulseTimeout.toNat)
    (hsignal : b.now < start + s.signalTimeout.toNat) :
    (s.capacity r.pulses.capacity ≤ r.count →
      (s.record (budget + 1) r b).1 = .bufferOverflow ∧ (s.record (budget + 1) r b).2.1 = r) ∧
    (r.count < s.capacity r.pulses.capacity →
      ∃ q c, s.record (budget + 1) r b = s.record budget q c ∧
        q.Hears start b.now (edge + pulse.toNat) pulses c ∧ q.Counts s.pulseWidth ∧
        c.now = b.now + b.tick ∧ c.tick = b.tick ∧ q.count = r.count + 1 ∧
        q.pulses.filled =
          r.pulses.filled ++ s.pulseWidth.encode (UInt32.ofNat (b.now - last)) ∧
        q.pulses.capacity = r.pulses.capacity) := by
  have hlevel : (b.line.settle b.now).idle = !r.level := by
    rw [h.line_eq, Line.settle_within_of_le hdue hnext]
    rfl
  have hchanged : (!r.level) ≠ r.level := by simp
  have hending := ending?_of_hears h hsignal hpulse (!r.level)
  rw [if_neg hchanged] at hending
  rw [record_succ, sample_eq, hlevel]
  constructor
  · intro hfull
    rw [if_pos hfull] at hending
    simp only [hending]
    exact ⟨trivial, trivial⟩
  · intro hroom
    rw [if_neg (Nat.not_le.mpr hroom)] at hending
    have hleft := bytes_le_left_of_ending hcounts hending hchanged
    have hlength := s.pulseWidth.length_encode (UInt32.ofNat b.now - r.last)
    have hfilled := filled_writeSpare_skip r.pulses (Nat.le_trans (Nat.le_of_eq hlength) hleft)
    have hlimit := s.pulseTimeout.toNat_lt
    have hduration : UInt32.ofNat b.now - r.last = UInt32.ofNat (b.now - last) := by
      rw [h.last_eq]
      exact ofNat_sub_ofNat h.last_le (by simp only [UInt32.size]; omega)
    rw [hlength, hduration] at hfilled
    have hnote : r.note s.pulseWidth (!r.level) (UInt32.ofNat b.now) =
        ⟨r.start, UInt32.ofNat b.now, !r.level, r.count + 1,
          (r.pulses.writeSpare (s.pulseWidth.encode (UInt32.ofNat (b.now - last)))).skip
            s.pulseWidth.bytes⟩ := by
      rw [Recording.note, if_neg hchanged, hduration]
    refine ⟨r.note s.pulseWidth (!r.level) (UInt32.ofNat b.now),
      { b with line := b.line.settle b.now, lastRead := some s.pin, now := b.now + b.tick },
      by simp only [hending], ?_, counts_note hcounts hending, rfl, rfl, ?_, ?_, capacity_note ..⟩
    · rw [hnote]
      refine ⟨h.start_eq, rfl, ?_, Nat.le_add_right_of_le h.start_le, hdue, Nat.le_add_right _ _⟩
      rw [h.line_eq, Line.settle_within_of_le hdue hnext]
    · rw [hnote]
    · rw [hnote]
      exact hfilled

/-- A sample at which the line is as it was ends a capture by a limit that the clock shows to be reached. -/
theorem ending?_level_eq_none_iff (h : r.Hears start last edge pulses b) :
    s.ending? r r.level (UInt32.ofNat b.now) = none ↔
      (b.now - start) % UInt32.size < s.signalTimeout.toNat ∧
        (b.now - last) % UInt32.size < s.pulseTimeout.toNat := by
  have hbegun : start ≤ b.now := Nat.le_trans h.start_le (Nat.le_trans h.edge_le h.last_le)
  rw [← toNat_ofNat_sub_ofNat_mod hbegun, ← toNat_ofNat_sub_ofNat_mod h.last_le, ← h.start_eq,
    ← h.last_eq, ← UInt32.lt_iff_toNat_lt, ← UInt32.lt_iff_toNat_lt, ← UInt32.not_le, ← UInt32.not_le]
  rw [ending?, if_pos rfl]
  split
  · simp [*]
  · split
    · simp [*]
    · simp [*]

theorem ending?_level_of_some {level : Bool} {now : UInt32} {ending : End} (h : level = r.level)
    (hsome : s.ending? r level now = some ending) : ending ≠ .bufferOverflow ∧ ending ≠ .abandoned := by
  rw [ending?, if_pos h] at hsome
  split at hsome
  · obtain rfl := Option.some.inj hsome
    decide
  · split at hsome
    · obtain rfl := Option.some.inj hsome
      decide
    · exact absurd hsome (by simp)

/-- Once the line is at rest nothing more is recorded, and only a limit ends the capture. -/
theorem record_rest (budget : Nat) (h : r.Hears start last edge [] b) :
    (s.record budget r b).2.1 = r ∧ (s.record budget r b).1 ≠ .bufferOverflow ∧
      ((s.record budget r b).1 = .abandoned ↔ ∀ m < budget,
        (b.now + m * b.tick - start) % UInt32.size < s.signalTimeout.toNat ∧
          (b.now + m * b.tick - last) % UInt32.size < s.pulseTimeout.toNat) := by
  induction budget generalizing b with
  | zero => exact ⟨rfl, by simp [record], by simp [record]⟩
  | succ budget ih =>
      have hquiet : ∀ next ∈ ([] : List UInt32).head?, b.now < edge + next.toNat := by simp
      have hlimits := ending?_level_eq_none_iff (s := s) h
      rw [Nat.forall_lt_succ_left, Nat.zero_mul, Nat.add_zero b.now, ← hlimits]
      cases hending : s.ending? r r.level (UInt32.ofNat b.now) with
      | some ending =>
          obtain ⟨hoverflow, habandoned⟩ := ending?_level_of_some rfl hending
          rw [record_succ, h.sample_eq hquiet]
          simp only [hending]
          exact ⟨trivial, hoverflow, iff_of_false habandoned (by simp)⟩
      | none =>
          obtain ⟨hrecording, hoverflow, habandoned⟩ := ih (h.later s.pin)
          rw [h.record_eq hquiet hending]
          have hnext (m : Nat) : b.now + b.tick + m * b.tick = b.now + (m + 1) * b.tick := by
            rw [Nat.succ_mul]
            omega
          simp only [hnext] at habandoned
          exact ⟨hrecording, hoverflow, habandoned.trans (and_iff_right rfl).symm⟩

/-- Whether a limit is reached at last on a clock that moves on by a tick. It comes round, and all that it then shows
are the multiples of what the tick and a whole round have in common. -/
def Expires (s : Station) (tick : Nat) : Prop :=
  min s.signalTimeout.toNat s.pulseTimeout.toNat + tick.gcd UInt32.size ≤ UInt32.size

instance (s : Station) (tick : Nat) : Decidable (s.Expires tick) :=
  inferInstanceAs (Decidable (_ ≤ _))

theorem expires_of_odd (s : Station) {tick : Nat} (h : tick % 2 = 1) : s.Expires tick := by
  have hcoprime : Nat.Coprime 2 tick := by rw [Nat.Coprime, Nat.gcd_rec, h, Nat.gcd_one_left]
  have hgcd : tick.gcd UInt32.size = 1 := hcoprime.symm.pow_right 32
  have hlimit := s.signalTimeout.toNat_lt
  rw [Expires, hgcd]
  simp only [UInt32.size]
  omega

/-- From any multiple of the tick on the clock shows one that is beyond a limit within a round, or never. -/
theorem expires_iff {s : Station} {tick : Nat} (late : Nat) {rounds : Nat} (h : UInt32.size ≤ rounds) :
    ¬s.Expires tick ↔ ∀ m < rounds,
      (late + 1 + m) * tick % UInt32.size < s.signalTimeout.toNat ∧
        (1 + m) * tick % UInt32.size < s.pulseTimeout.toNat := by
  have hsize : 0 < UInt32.size := by decide
  rw [Expires]
  constructor
  · intro hnot m _
    have hsignal := mul_mod_add_gcd_le (late + 1 + m) tick hsize
    have hpulse := mul_mod_add_gcd_le (1 + m) tick hsize
    omega
  · intro hall hexpires
    rcases Nat.le_total s.signalTimeout.toNat s.pulseTimeout.toNat with hle | hle
    · obtain ⟨m, hm, hmost⟩ := exists_mul_mod_add_gcd (late + 1) tick hsize
      have hbelow := (hall m (Nat.lt_of_lt_of_le hm h)).1
      omega
    · obtain ⟨m, hm, hmost⟩ := exists_mul_mod_add_gcd 1 tick hsize
      have hbelow := (hall m (Nat.lt_of_lt_of_le hm h)).2
      omega

/-- What a recording comes to that hears some durations more. -/
structure Recorded (s : Station) (tick : Nat) (r : Recording) (durations : List Nat)
    (x : End × Recording × Bench) : Prop where
  count_eq : x.2.1.count = min (r.count + durations.length) (s.capacity r.pulses.capacity)
  filled_eq : x.2.1.pulses.filled = r.pulses.filled ++
    (durations.take (s.capacity r.pulses.capacity - r.count)).flatMap
      fun duration => s.pulseWidth.encode (UInt32.ofNat duration)
  overflow_iff : x.1 = .bufferOverflow ↔
    s.capacity r.pulses.capacity < r.count + durations.length
  abandoned_iff : x.1 = .abandoned ↔
    r.count + durations.length ≤ s.capacity r.pulses.capacity ∧ ¬s.Expires tick

theorem recorded_of_full {x : End × Recording × Bench} (hending : x.1 = .bufferOverflow)
    (hsame : x.2.1 = r) (hfull : r.count = s.capacity r.pulses.capacity) (tick duration : Nat)
    (durations : List Nat) : Recorded s tick r (duration :: durations) x := by
  refine ⟨?_, ?_, ?_, ?_⟩
  · rw [hsame, ← hfull, Nat.min_eq_right (Nat.le_add_right _ _)]
  · rw [hsame, ← hfull, Nat.sub_self, List.take_zero, List.flatMap_nil, List.append_nil]
  · simp [hending, ← hfull]
  · simp [hending, ← hfull]

theorem Recorded.cons {q : Recording} {tick duration : Nat} {durations : List Nat}
    {x : End × Recording × Bench} (h : Recorded s tick q durations x)
    (hroom : r.count < s.capacity r.pulses.capacity) (hcount : q.count = r.count + 1)
    (hfilled : q.pulses.filled =
      r.pulses.filled ++ s.pulseWidth.encode (UInt32.ofNat duration))
    (hcapacity : q.pulses.capacity = r.pulses.capacity) :
    Recorded s tick r (duration :: durations) x := by
  obtain ⟨hcountEq, hfilledEq, hoverflow, habandoned⟩ := h
  rw [hcapacity, hcount] at hcountEq hfilledEq hoverflow habandoned
  have hleft : s.capacity r.pulses.capacity - r.count =
      s.capacity r.pulses.capacity - (r.count + 1) + 1 := by omega
  have hlength : r.count + (duration :: durations).length = r.count + 1 + durations.length := by
    rw [List.length_cons]
    omega
  refine ⟨?_, ?_, ?_, ?_⟩
  · rw [hcountEq, hlength]
  · rw [hfilledEq, hfilled, hleft, List.take_succ_cons, List.flatMap_cons, List.append_assoc]
  · rw [hoverflow, hlength]
  · rw [habandoned, hlength]

/-- At the end of a signal there are no more durations to hear, and the capture ends if a limit can be reached. -/
theorem recorded_rest {budget late : Nat} (h : r.Hears start last edge [] b)
    (hcount : r.count ≤ s.capacity r.pulses.capacity) (hlast : last = start + late * b.tick)
    (hnow : b.now = last + b.tick) (hrounds : UInt32.size ≤ budget) :
    Recorded s b.tick r [] (s.record budget r b) := by
  obtain ⟨hrecording, hoverflow, habandoned⟩ := record_rest (s := s) budget h
  have hsinceStart (m : Nat) : b.now + m * b.tick - start = (late + 1 + m) * b.tick := by
    rw [Nat.add_mul, Nat.succ_mul]
    omega
  have hsinceLast (m : Nat) : b.now + m * b.tick - last = (1 + m) * b.tick := by
    rw [Nat.add_mul, Nat.one_mul]
    omega
  simp only [hsinceStart, hsinceLast] at habandoned
  refine ⟨?_, ?_, ?_, ?_⟩
  · rw [hrecording, List.length_nil, Nat.add_zero, Nat.min_eq_left hcount]
  · rw [hrecording, List.take_nil, List.flatMap_nil, List.append_nil]
  · simp only [hoverflow, List.length_nil, Nat.add_zero, false_iff, Nat.not_lt]
    exact hcount
  · rw [habandoned, List.length_nil, Nat.add_zero, expires_iff late hrounds]
    exact (and_iff_right hcount).symm

/-- A signal whose edges are far enough apart, and close enough for the limits, is recorded. -/
theorem recorded_heard {budget late : Nat} (htick : 0 < b.tick) (h : r.Hears start last edge pulses b)
    (hcounts : r.Counts s.pulseWidth) (hcount : r.count ≤ s.capacity r.pulses.capacity)
    (hlast : last = start + late * b.tick) (hnow : b.now = last + b.tick) (hlag : last < edge + b.tick)
    (hpulses : ∀ pulse ∈ pulses,
      b.tick ≤ pulse.toNat ∧ pulse.toNat + b.tick ≤ s.pulseTimeout.toNat)
    (hsum : edge + (pulses.map UInt32.toNat).sum + b.tick ≤ start + s.signalTimeout.toNat)
    (hbudget : edge + (pulses.map UInt32.toNat).sum + UInt32.size * b.tick ≤
      last + budget * b.tick) :
    Recorded s b.tick r (heard b.tick (last - edge) pulses) (s.record budget r b) := by
  induction pulses generalizing r b last edge budget late with
  | nil =>
      simp only [List.map_nil, List.sum_nil, Nat.add_zero] at hbudget
      have hrounds : UInt32.size ≤ budget := by
        have hlt : UInt32.size * b.tick < (budget + 1) * b.tick := by
          rw [Nat.succ_mul budget]
          omega
        exact Nat.le_of_lt_succ (Nat.lt_of_mul_lt_mul_right hlt)
      exact recorded_rest h hcount hlast hnow hrounds
  | cons pulse pulses ih =>
      obtain ⟨hlong, hshort⟩ := hpulses pulse List.mem_cons_self
      have hrest (other : UInt32) (hother : other ∈ pulses) :=
        hpulses other (List.mem_cons_of_mem _ hother)
      have hedge := h.edge_le
      rw [List.map_cons, List.sum_cons] at hsum hbudget
      obtain ⟨hleast, hmost⟩ := samplesTo_mul htick (pulse.toNat - (last - edge))
      rw [heard]
      generalize hsamples : samplesTo b.tick (pulse.toNat - (last - edge)) = samples at hleast hmost
      have hpos : 0 < samples := by
        refine Nat.pos_of_ne_zero fun hzero => ?_
        rw [hzero, Nat.zero_mul] at hleast
        omega
      have hspare : b.tick ≤ UInt32.size * b.tick := Nat.le_mul_of_pos_left _ (by decide)
      have henough : samples ≤ budget :=
        Nat.le_of_mul_le_mul_right (c := b.tick) (by omega) htick
      -- All of the samples but the last come before the edge.
      obtain ⟨waits, rfl⟩ : ∃ n, samples = n + 1 := ⟨samples - 1, by omega⟩
      obtain ⟨budget, rfl⟩ : ∃ n, budget = waits + (n + 1) := ⟨budget - (waits + 1), by omega⟩
      rw [Nat.succ_mul] at hleast hmost ⊢
      rw [Nat.add_mul, Nat.add_mul budget, Nat.one_mul] at hbudget
      obtain ⟨c, hwait, hc, hcnow, hctick⟩ := exists_record_wait waits (budget + 1) h
        (s := s) (by omega) (by omega) (by
          intro i hi
          have hle := Nat.mul_le_mul_right b.tick (Nat.succ_le_of_lt hi)
          rw [Nat.succ_mul] at hle
          omega)
      have hnext : ∀ next ∈ pulses.head?, c.now < edge + pulse.toNat + next.toNat := by
        intro next hnext
        obtain ⟨hnextLong, -⟩ := hrest next (List.mem_of_head? hnext)
        omega
      obtain ⟨hfull, hroom⟩ := exists_record_edge budget hc hcounts (by omega) hnext
        (by omega) (by omega)
      rw [hwait]
      by_cases hspace : r.count < s.capacity r.pulses.capacity
      · obtain ⟨q, e, hrecord, he, hqcounts, henow, hetick, hqcount, hfilled, hcapacity⟩ :=
          hroom hspace
        have hlag' : last - edge + (waits * b.tick + b.tick) - pulse.toNat =
            c.now - (edge + pulse.toNat) := by omega
        have hduration : waits * b.tick + b.tick = c.now - last := by omega
        have htick' : e.tick = b.tick := hetick.trans hctick
        have hlate : c.now = start + (late + (waits + 1)) * e.tick := by
          rw [htick', Nat.add_mul, Nat.succ_mul]
          omega
        have hlater : Recorded s e.tick q (heard e.tick (c.now - (edge + pulse.toNat)) pulses)
            (s.record budget q e) :=
          ih (by omega) he hqcounts (by rw [hqcount, hcapacity]; omega) hlate (by omega) (by omega)
            (by rw [htick']; exact hrest) (by omega) (by rw [htick']; omega)
        rw [htick', ← hlag'] at hlater
        rw [hrecord]
        refine hlater.cons hspace hqcount ?_ hcapacity
        rw [hfilled, hduration]
      · obtain ⟨hending, hsame⟩ := hfull (Nat.le_of_not_lt hspace)
        exact recorded_of_full hending hsame (Nat.le_antisymm hcount (Nat.le_of_not_lt hspace)) _ _ _

/-- What a station has recorded of a signal when it took its first sample of it. -/
def Recording.begun (b : Bench) (store : Buffer) : Recording :=
  ⟨UInt32.ofNat b.now, UInt32.ofNat b.now, !b.level, 0, store.reset⟩

section Schedule

variable {signal : List UInt32} (htick : 0 < b.tick)
  (hpulses : ∀ pulse ∈ signal,
    b.tick ≤ pulse.toNat ∧ pulse.toNat + b.tick ≤ s.pulseTimeout.toNat)

include htick hpulses

/-- What the first sample of a signal shows, and what then is left of the line. -/
theorem exists_sample_schedule (pin : UInt8) : ∃ w,
    Platform.sample pin (Platform.tell .disableInterrupts (b.schedule signal 0)) =
        ((!b.level, UInt32.ofNat b.now), w) ∧
      w.line = .within (!b.level) b.now signal ∧ w.now = b.now + b.tick ∧ w.tick = b.tick := by
  have hfirst : ∀ pulse ∈ signal.head?, 0 < pulse.toNat := by
    intro pulse hpulse
    obtain ⟨hlong, -⟩ := hpulses pulse (List.mem_of_head? hpulse)
    omega
  have hsettle := b.line.settle_schedule b.now hfirst
  refine ⟨(Platform.sample pin
    (Platform.tell .disableInterrupts (b.schedule signal 0))).2, ?_, hsettle, rfl, rfl⟩
  have hlevel : (Platform.sample pin
      (Platform.tell .disableInterrupts (b.schedule signal 0))).1 =
        (!b.level, UInt32.ofNat b.now) :=
    congrArg (fun l : Line => (l.idle, UInt32.ofNat b.now)) hsettle
  rw [← hlevel]

/-- A recording that starts with a signal hears the durations of its pulses, if it may go on for long enough. -/
theorem recorded_schedule (hsum : (signal.map UInt32.toNat).sum + b.tick ≤ s.signalTimeout.toNat)
    {w : Bench} (hline : w.line = .within (!b.level) b.now signal) (hnow : w.now = b.now + b.tick)
    (htickEq : w.tick = b.tick) {budget : Nat}
    (hbudget : (signal.map UInt32.toNat).sum + UInt32.size * b.tick ≤ budget * b.tick)
    (store : Buffer) :
    Recorded s b.tick (.begun b store) (heard b.tick 0 signal)
      (s.record budget (.begun b store) w) := by
  have hhears : Recording.Hears (.begun b store) b.now b.now b.now signal w :=
    ⟨rfl, rfl, hline, Nat.le_refl _, Nat.le_refl _, by rw [hnow]; exact Nat.le_add_right _ _⟩
  have hcounts : (Recording.begun b store).Counts s.pulseWidth := by
    simp [Recording.Counts, Recording.begun]
  rw [← htickEq] at htick hpulses hsum hnow hbudget ⊢
  rw [← Nat.sub_self b.now]
  have hlast : b.now = b.now + 0 * w.tick := by omega
  exact recorded_heard htick hhears hcounts (Nat.zero_le _) hlast hnow
    (Nat.lt_add_of_pos_right htick) hpulses (by omega) (by omega)

/-- A capture that starts with a signal records as much of it as the store has room for. -/
theorem exists_capture_schedule (harmed : s.armed = true) (hcursor : s.cursor = 0)
    (hsum : (signal.map UInt32.toNat).sum + b.tick ≤ s.signalTimeout.toNat) (store : Buffer) :
    ∃ report, (s.capture store (b.schedule signal 0)).1 = some report ∧
      report.count = min signal.length (s.capacity store.capacity) ∧
      (s.capture store (b.schedule signal 0)).2.2.1.filled =
        ((heard b.tick 0 signal).take (s.capacity store.capacity)).flatMap
          (fun duration => s.pulseWidth.encode (UInt32.ofNat duration)) ∧
      (report.ending = .bufferOverflow ↔ s.capacity store.capacity < signal.length) ∧
      (report.ending = .abandoned ↔
        signal.length ≤ s.capacity store.capacity ∧ ¬s.Expires b.tick) := by
  obtain ⟨w, hsample, hline, hnow, htickEq⟩ := exists_sample_schedule htick hpulses s.pin
  have hpatience : (signal.map UInt32.toNat).sum + UInt32.size * b.tick ≤
      Platform.patience w * b.tick := by
    have henough := le_patience (b := w) (by omega)
    have hrests : b.now + (signal.map UInt32.toNat).sum ≤
        max (Line.within (!b.level) b.now signal).restsFrom (b.now + b.tick) :=
      Line.add_sum_le_max (Nat.le_add_right _ _)
    rw [hline, hnow, htickEq] at henough
    omega
  obtain ⟨budget, hbudget⟩ : ∃ budget, Platform.patience w = budget := ⟨_, rfl⟩
  rw [hbudget] at hpatience
  rw [capture_eq_record harmed hsample hbudget, hcursor]
  obtain ⟨hcount, hfilled, hoverflow, habandoned⟩ :=
    recorded_schedule htick hpulses hsum hline hnow htickEq hpatience store
  rw [length_heard] at hcount hoverflow habandoned
  simp only [Recording.begun, Nat.zero_add, Nat.sub_zero, Buffer.filled_reset,
    Buffer.capacity_reset, List.nil_append] at hcount hfilled hoverflow habandoned
  exact ⟨_, rfl, hcount, hfilled, hoverflow, habandoned⟩

end Schedule

end Station

end Infrared
