import Infrared.Proofs.Answer
import Infrared.Proofs.Bench.Signal
import Infrared.Proofs.Sampling

namespace Infrared

namespace Bench

variable {tick lag : Nat} {pulses : List UInt32}

/-- The time by which an edge is noticed late is taken over into the next duration. -/
theorem sum_take_heard (htick : 0 < tick) (hlag : lag < tick)
    (hpulses : ∀ pulse ∈ pulses, tick ≤ pulse.toNat) (count : Nat) :
    ((pulses.take count).map UInt32.toNat).sum ≤ lag + ((heard tick lag pulses).take count).sum ∧
      lag + ((heard tick lag pulses).take count).sum <
        ((pulses.take count).map UInt32.toNat).sum + tick := by
  induction pulses generalizing lag count with
  | nil => simpa [heard] using hlag
  | cons pulse pulses ih =>
      cases count with
      | zero => simpa using hlag
      | succ count =>
          have hlong := hpulses pulse List.mem_cons_self
          obtain ⟨hleast, hmost⟩ := samplesTo_mul htick (pulse.toNat - lag)
          have hlate : lag + samplesTo tick (pulse.toNat - lag) * tick - pulse.toNat < tick := by omega
          obtain ⟨hlower, hupper⟩ :=
            ih hlate (fun other hother => hpulses other (List.mem_cons_of_mem _ hother)) count
          rw [heard, List.take_succ_cons, List.take_succ_cons, List.map_cons, List.sum_cons, List.sum_cons]
          omega

theorem lt_of_mem_heard {limit : Nat} (htick : 0 < tick)
    (hpulses : ∀ pulse ∈ pulses, pulse.toNat + tick ≤ limit) {duration : Nat}
    (h : duration ∈ heard tick lag pulses) : duration < limit := by
  induction pulses generalizing lag with
  | nil => exact absurd h List.not_mem_nil
  | cons pulse pulses ih =>
      rw [heard, List.mem_cons] at h
      rcases h with rfl | h
      · have hshort := hpulses pulse List.mem_cons_self
        have hmost := (samplesTo_mul htick (pulse.toNat - lag)).2
        omega
      · exact ih (fun other hother => hpulses other (List.mem_cons_of_mem _ hother)) h

end Bench

namespace Station

open Bench

/-- Durations that are short enough for the width of a station are stored as they are. -/
theorem toNat_durations_flatMap (s : Station) {durations : List Nat} (hlength : durations.length ≤ 65535)
    (hlongest : ∀ duration ∈ durations, duration < s.pulseWidth.longest.toNat) :
    (s.durations (durations.flatMap fun duration => s.pulseWidth.encode (UInt32.ofNat duration))).map
      UInt32.toNat = durations := by
  have htoNat (duration : Nat) (hmem : duration ∈ durations) :
      (UInt32.ofNat duration).toNat = duration := by
    have hlt := hlongest duration hmem
    have hwidth := s.pulseWidth.longest.toNat_lt
    rw [UInt32.toNat_ofNat', Nat.mod_eq_of_lt (by omega)]
  have hfits : ∀ pulse ∈ durations.map UInt32.ofNat, pulse ≤ s.pulseWidth.longest := by
    intro pulse hpulse
    obtain ⟨duration, hmem, rfl⟩ := List.mem_map.mp hpulse
    rw [UInt32.le_iff_toNat_le, htoNat duration hmem]
    exact Nat.le_of_lt (hlongest duration hmem)
  have hcount : (durations.map UInt32.ofNat).length ≤ 65535 := by
    rw [List.length_map]
    exact hlength
  have hstored := s.durations_flatMap_encode hcount
  rw [List.flatMap_map, PulseWidth.map_saturate_of_le hfits] at hstored
  rw [hstored, List.map_map]
  exact (List.map_congr_left htoNat).trans (List.map_id' durations)

section Schedule

variable {s : Station} {b : Bench} {signal : List UInt32} (htick : 0 < b.tick)
  (hpulses : ∀ pulse ∈ signal,
    b.tick ≤ pulse.toNat ∧ pulse.toNat + b.tick ≤ s.pulseTimeout.toNat)
  (hcursor : s.cursor = 0)
  (hsum : (signal.map UInt32.toNat).sum + b.tick ≤ s.signalTimeout.toNat)

include htick hpulses hcursor hsum

/-- Limits that the clock never shows let a capture go on for ever. -/
theorem goesOn_of_not_expires (hexpires : ¬s.Expires b.tick) (store : Buffer)
    (hroom : signal.length ≤ s.capacity store.capacity) (n : Nat) :
    s.GoesOn (s.roomFor store.capacity) (s.tape (b.schedule signal 0)) n := by
  obtain ⟨w, hsample, hline, hnow, htickEq⟩ := exists_sample_schedule htick hpulses s.pin
  have hlevel : (s.tape (b.schedule signal 0)).level 0 = !b.level :=
    congrArg (fun x : (Bool × UInt32) × Bench => x.1.1) hsample
  have htime : (s.tape (b.schedule signal 0)).time 0 = UInt32.ofNat b.now :=
    congrArg (fun x : (Bool × UInt32) × Bench => x.1.2) hsample
  have hsampled : Platform.sampled s.pin (Platform.tell .disableInterrupts (b.schedule signal 0)) 1 = w :=
    congrArg Prod.snd hsample
  have hbegun := transcribes_first s (s.tape (b.schedule signal 0)) store
  rw [hlevel, htime, hcursor] at hbegun
  have hbudget : (signal.map UInt32.toNat).sum + UInt32.size * b.tick ≤
      (n + (signal.map UInt32.toNat).sum + UInt32.size) * b.tick := by
    have hsumLe := Nat.le_mul_of_pos_right (n + (signal.map UInt32.toNat).sum) htick
    rw [Nat.add_mul]
    omega
  have habandoned := (recorded_schedule htick hpulses hsum hline hnow htickEq hbudget store).abandoned_iff
  have hfits : 0 + (heard b.tick 0 signal).length ≤ s.capacity store.capacity := by
    rw [length_heard, Nat.zero_add]
    exact hroom
  have hending := habandoned.mpr ⟨hfits, hexpires⟩
  rcases record_sampled (n + (signal.map UInt32.toNat).sum + UInt32.size) hbegun
    (goesOn_one s _ _) with ⟨m, ending, q, -, hends, -, hrecord⟩ | ⟨hgoes, -⟩
  · rw [hsampled] at hrecord
    rw [Recording.begun, hrecord] at hending
    exact absurd hending hends.ne_abandoned
  · exact hgoes.of_le (by omega)

/-- Whether some sample ends a capture of a signal that there is room for. -/
theorem exists_endsAt_iff_expires (harmed : s.armed = true) (store : Buffer)
    (hroom : signal.length ≤ s.capacity store.capacity) :
    (∃ n ending, s.EndsAt (s.roomFor store.capacity) (s.tape (b.schedule signal 0)) n ending) ↔
      s.Expires b.tick := by
  constructor
  · rintro ⟨n, ending, hends⟩
    refine Decidable.byContradiction fun hexpires => ?_
    exact hends.not_goesOn (Nat.lt_succ_self n)
      (goesOn_of_not_expires htick hpulses hcursor hsum hexpires store hroom _)
  · intro hexpires
    obtain ⟨report, hreport, -, -, -, habandoned⟩ :=
      exists_capture_schedule htick hpulses harmed hcursor hsum store
    rcases capture_ends_or_goesOn harmed store (b.schedule signal 0) with
      ⟨n, ending, -, -, hends, -⟩ | ⟨-, r, -, hcapture⟩
    · exact ⟨n, ending, hends⟩
    · rw [hcapture] at hreport
      obtain rfl := Option.some.inj hreport
      exact absurd hexpires (habandoned.mp rfl).2

end Schedule

/-- Whether the pulses of a signal are no shorter than a tick, and a station has time for it however late its edges
are noticed. -/
structure Admits (s : Station) (tick : Nat) (signal : List UInt32) : Prop where
  tick_le : ∀ pulse ∈ signal, tick ≤ pulse.toNat
  add_tick_le : ∀ pulse ∈ signal,
    pulse.toNat + tick ≤ min s.pulseTimeout.toNat s.pulseWidth.longest.toNat
  sum_add_tick_le : (signal.map UInt32.toNat).sum + tick ≤ s.signalTimeout.toNat

-- The pulses are a list, and must not be looked for among all numbers of 32 bits.
instance (s : Station) (tick : Nat) (signal : List UInt32) : Decidable (s.Admits tick signal) :=
  decidable_of_iff
    (signal.all (fun pulse => decide (tick ≤ pulse.toNat ∧
        pulse.toNat + tick ≤ min s.pulseTimeout.toNat s.pulseWidth.longest.toNat)) = true ∧
      (signal.map UInt32.toNat).sum + tick ≤ s.signalTimeout.toNat)
    (by
      simp only [List.all_eq_true, decide_eq_true_eq]
      constructor
      · intro ⟨hpulses, hsum⟩
        exact ⟨fun pulse hpulse => (hpulses pulse hpulse).1, fun pulse hpulse => (hpulses pulse hpulse).2, hsum⟩
      · intro h
        exact ⟨fun pulse hpulse => ⟨h.tick_le pulse hpulse, h.add_tick_le pulse hpulse⟩, h.sum_add_tick_le⟩)

theorem Admits.limits {s : Station} {tick : Nat} {signal : List UInt32} (h : s.Admits tick signal) :
    ∀ pulse ∈ signal, tick ≤ pulse.toNat ∧ pulse.toNat + tick ≤ s.pulseTimeout.toNat := by
  intro pulse hpulse
  exact ⟨h.tick_le pulse hpulse, Nat.le_trans (h.add_tick_le pulse hpulse) (Nat.min_le_left _ _)⟩

/-- A capture that starts with a signal records it whole and without drift, and it ends if the clock can show that a
limit is reached. -/
theorem capture_keeps_time {s : Station} {b : Bench} {signal : List UInt32} (harmed : s.armed = true)
    (hcursor : s.cursor = 0) (htick : 0 < b.tick) (hadmits : s.Admits b.tick signal) (store : Buffer)
    (hroom : signal.length ≤ s.capacity store.capacity) :
    ((∃ n ending, s.EndsAt (s.capacity store.capacity) (s.tape (b.schedule signal 0)) n ending) ↔
        s.Expires b.tick) ∧
      ∃ report station pulses after,
        s.capture store (b.schedule signal 0) = (some report, station, pulses, after) ∧
          report.count = signal.length ∧ report.ending ≠ .bufferOverflow ∧
          (report.ending = .abandoned ↔ ¬s.Expires b.tick) ∧
          (s.durations pulses.filled).length = signal.length ∧
          ∀ count,
            ((signal.take count).map UInt32.toNat).sum ≤
                (((s.durations pulses.filled).take count).map UInt32.toNat).sum ∧
              (((s.durations pulses.filled).take count).map UInt32.toNat).sum <
                ((signal.take count).map UInt32.toNat).sum + b.tick := by
  have hends := exists_endsAt_iff_expires htick hadmits.limits hcursor hadmits.sum_add_tick_le harmed
    store hroom
  rw [roomFor, hcursor, Nat.sub_zero] at hends
  obtain ⟨report, hreport, hcount, hfilled, hoverflow, habandoned⟩ :=
    exists_capture_schedule htick hadmits.limits harmed hcursor hadmits.sum_add_tick_le store
  rw [List.take_of_length_le (by rw [length_heard]; exact hroom)] at hfilled
  have hheard : (s.durations (s.capture store (b.schedule signal 0)).2.2.1.filled).map UInt32.toNat =
      heard b.tick 0 signal := by
    rw [hfilled]
    apply toNat_durations_flatMap
    · rw [length_heard]
      exact Nat.le_trans hroom (Nat.min_le_right _ _)
    · intro duration hduration
      refine lt_of_mem_heard htick ?_ hduration
      intro pulse hpulse
      exact Nat.le_trans (hadmits.add_tick_le pulse hpulse) (Nat.min_le_right _ _)
  refine ⟨hends, report, _, _, _, Prod.ext hreport rfl, ?_, ?_, ?_, ?_, ?_⟩
  · rw [hcount, Nat.min_eq_left hroom]
  · exact fun hfull => Nat.not_lt.mpr hroom (hoverflow.mp hfull)
  · exact habandoned.trans (and_iff_right hroom)
  · rw [← length_heard b.tick 0 signal, ← hheard, List.length_map]
  · intro count
    have hbounds := sum_take_heard htick htick hadmits.tick_le count
    rw [Nat.zero_add, ← hheard, ← List.map_take] at hbounds
    exact hbounds

/-- A signal during which the clock comes round. -/
theorem capture_keeps_time_wrapping :
    let armed := (Station.new .bits8 100 20).armCapture 2
      ({ now := 4294967290, tick := 3, line := ⟨true, []⟩ } : Bench)
    armed.1.armed = true ∧ armed.1.cursor = 0 ∧ 0 < armed.2.tick ∧
      armed.1.Admits armed.2.tick [10, 7, 5] ∧ 3 ≤ armed.1.capacity (Buffer.new 8).capacity ∧
      ∃ report, (armed.1.capture (Buffer.new 8) (armed.2.schedule [10, 7, 5] 0)).1 = some report ∧
        report.count = 3 ∧ report.ending ≠ .bufferOverflow ∧ report.ending ≠ .abandoned := by
  intro armed
  have hadmits : armed.1.Admits armed.2.tick [10, 7, 5] := by decide
  have hroom : 3 ≤ armed.1.capacity (Buffer.new 8).capacity := by decide
  have hexpires : armed.1.Expires armed.2.tick := by decide +kernel
  obtain ⟨-, report, station, pulses, after, hcapture, hcount, hoverflow, habandoned, -⟩ :=
    capture_keeps_time (s := armed.1) (b := armed.2) rfl rfl (by decide) hadmits (Buffer.new 8) hroom
  refine ⟨rfl, rfl, by decide, hadmits, hroom, report, ?_, hcount, hoverflow, ?_⟩
  · rw [hcapture]
  · exact fun hending => habandoned.mp hending hexpires

/-- A clock with a tick of two never shows the longest limit there is, and a report has 16 bits for its count, so a
longer signal overflows a store that has room for it. -/
theorem capture_goesOn_and_overflows :
    (let armed := (Station.new .bits32 4294967295 4294967295).armCapture 2 ({ tick := 2 } : Bench)
    armed.1.armed = true ∧ armed.1.cursor = 0 ∧ 0 < armed.2.tick ∧
      armed.1.Admits armed.2.tick [10] ∧ 1 ≤ armed.1.capacity (Buffer.new 16).capacity ∧
      ¬∃ n ending,
        armed.1.EndsAt (armed.1.capacity 16) (armed.1.tape (armed.2.schedule [10] 0)) n ending) ∧
    (let armed := (Station.new .bits8 70000 2).armCapture 2 ({} : Bench)
    let signal : List UInt32 := List.replicate 65536 1
    armed.1.armed = true ∧ armed.1.cursor = 0 ∧ 0 < armed.2.tick ∧
      armed.1.Admits armed.2.tick signal ∧
      signal.length ≤ (Buffer.new 65536).capacity / armed.1.pulseWidth.bytes ∧
      (armed.1.capture (Buffer.new 65536) (armed.2.schedule signal 0)).1 =
        some ⟨65535, .bufferOverflow⟩) := by
  constructor
  · intro armed
    have hadmits : armed.1.Admits armed.2.tick [10] := by decide
    have hroom : 1 ≤ armed.1.capacity (Buffer.new 16).capacity := by decide
    have hexpires : ¬armed.1.Expires armed.2.tick := by decide +kernel
    have hends := exists_endsAt_iff_expires (s := armed.1) (b := armed.2) (by decide) hadmits.limits rfl
      hadmits.sum_add_tick_le rfl (Buffer.new 16) hroom
    exact ⟨rfl, rfl, by decide, hadmits, hroom, fun h => hexpires (hends.mp h)⟩
  · intro armed signal
    have hone : ∀ pulse ∈ signal, pulse = 1 := fun pulse hpulse => List.eq_of_mem_replicate hpulse
    have hlength : signal.length = 65536 := List.length_replicate
    have hsum : (signal.map UInt32.toNat).sum = 65536 := by
      rw [List.map_replicate, List.sum_replicate_nat]
      rfl
    have hadmits : armed.1.Admits armed.2.tick signal := by
      refine ⟨?_, ?_, by rw [hsum]; decide⟩
      · intro pulse hpulse
        rw [hone pulse hpulse]
        decide
      · intro pulse hpulse
        rw [hone pulse hpulse]
        decide
    obtain ⟨report, hreport, hcount, -, hoverflow, -⟩ :=
      exists_capture_schedule (s := armed.1) (b := armed.2) (by decide) hadmits.limits rfl rfl
        hadmits.sum_add_tick_le (Buffer.new 65536)
    rw [hlength] at hcount hoverflow
    obtain ⟨count, ending⟩ := report
    obtain rfl : count = 65535 := hcount.trans (by decide)
    obtain rfl : ending = .bufferOverflow := hoverflow.mpr (by decide)
    exact ⟨rfl, rfl, by decide, hadmits, by rw [hlength]; decide, hreport⟩

end Station

end Infrared
