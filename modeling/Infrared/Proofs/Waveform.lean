import Mathlib.Algebra.GroupWithZero.Nat
import Infrared.Proofs.Answer
import Infrared.Proofs.History

/-!
What a transmission does to its pin. `held` reads a list of calls as the levels at which the pin is held, and for how
long. Main statement: the calls of a transmission come in parts, one for each pulse; a space holds the pin low for its
duration, and a mark is a square wave of the carrier, which is shorter than its duration by less than half a period
(`Station.transmit_waveform`).
-/

namespace Infrared

namespace Call

/-- The level of a pin after a call, if it had a level before. -/
def driven (pin : UInt8) (level : Bool) : Call → Bool
  | output other driven | write other driven => if other = pin then driven else level
  | _ => level

/-- The level at which a call holds a pin that has this level, and for how long, if it waits. -/
def holds (level : Bool) : Call → List (Bool × UInt32)
  | delay duration => [(level, duration)]
  | _ => []

/-- How long a call waits, in microseconds. -/
def span : Call → Nat
  | delay duration => duration.toNat
  | _ => 0

end Call

namespace Waveform

/-- The levels at which calls hold a pin, in order, and for how long, if it had a level before them. -/
def held (pin : UInt8) : Bool → List Call → List (Bool × UInt32)
  | _, [] => []
  | level, call :: calls => call.holds level ++ held pin (call.driven pin level) calls

/-- The time that calls take. -/
def span (calls : List Call) : Nat :=
  (calls.map Call.span).sum

/-- Half cycles of a carrier, high and low in turn from a high one on. -/
def squareWave (half : UInt32) (count : Nat) : List (Bool × UInt32) :=
  (List.range count).map fun index => (index % 2 == 0, half)

/-- Whether calls hold a pin at the given levels for the given times, whatever level it had before, and leave it low.
They write to this pin and wait, and nothing else. -/
structure Shapes (pin : UInt8) (holds : List (Bool × UInt32)) (calls : List Call) : Prop where
  only : ∀ call ∈ calls, (∃ level, call = .write pin level) ∨ ∃ duration, call = .delay duration
  held_eq : ∀ level, held pin level calls = holds
  low : ∀ level, calls.foldl (Call.driven pin) level = false

/-- Whether calls send a space of a duration. -/
def IsSpace (pin : UInt8) (duration : UInt32) (calls : List Call) : Prop :=
  Shapes pin [(false, duration)] calls

/-- Whether calls send a mark of a duration: a square wave, or no signal if there is no carrier. -/
structure IsMark (pin : UInt8) (half duration : UInt32) (calls : List Call) : Prop where
  unmodulated : half = 0 → Shapes pin [(false, duration)] calls
  modulated : half ≠ 0 → Shapes pin (squareWave half (duration.toNat / half.toNat)) calls
  highs : half ≠ 0 → ∀ level, (held pin level calls).filter (·.1) =
    List.replicate ((duration.toNat / half.toNat + 1) / 2) (true, half)

variable {pin : UInt8} {half duration : UInt32}

theorem held_append (level : Bool) (calls more : List Call) :
    held pin level (calls ++ more) =
      held pin level calls ++ held pin (calls.foldl (Call.driven pin) level) more := by
  induction calls generalizing level with
  | nil => rfl
  | cons call calls ih => rw [List.cons_append, held, held, List.foldl_cons, ih, List.append_assoc]

@[simp] theorem span_nil : span [] = 0 := rfl

@[simp] theorem span_cons (call : Call) (calls : List Call) : span (call :: calls) = call.span + span calls := by
  rw [span, span, List.map_cons, List.sum_cons]

@[simp] theorem span_append (calls more : List Call) : span (calls ++ more) = span calls + span more := by
  rw [span, span, span, List.map_append, List.sum_append]

theorem squareWave_succ (half : UInt32) (count : Nat) :
    squareWave half (count + 1) = squareWave half count ++ [(count % 2 == 0, half)] := by
  rw [squareWave, squareWave, List.range_succ, List.map_append, List.map_singleton]

theorem filter_squareWave (half : UInt32) (count : Nat) :
    (squareWave half count).filter (·.1) = List.replicate ((count + 1) / 2) (true, half) := by
  induction count with
  | zero => rfl
  | succ count ih =>
      rw [squareWave_succ, List.filter_append, ih]
      rcases Nat.mod_two_eq_zero_or_one count with heven | hodd
      · have hcount : (count + 1 + 1) / 2 = (count + 1) / 2 + 1 := by omega
        rw [hcount, List.replicate_succ', heven]
        rfl
      · have hcount : (count + 1 + 1) / 2 = (count + 1) / 2 := by omega
        rw [hcount, hodd]
        exact List.append_nil _

theorem isSpace_space (pin : UInt8) (duration : UInt32) : IsSpace pin duration (space pin duration) := by
  constructor
  · exact fun _ hcall => mem_space hcall
  · intro level
    simp [space, held, Call.holds, Call.driven]
  · intro level
    simp [space, Call.driven]

theorem halfCycles_succ (pin : UInt8) (half : UInt32) (count : Nat) :
    halfCycles pin half (count + 1) =
      halfCycles pin half count ++ [.write pin (count % 2 == 0), .delay half] := by
  rw [halfCycles, halfCycles, List.range_succ, List.flatMap_append, List.flatMap_singleton]

theorem held_halfCycles (pin : UInt8) (half : UInt32) (level : Bool) (count : Nat) :
    held pin level (halfCycles pin half count) = squareWave half count := by
  induction count with
  | zero => rfl
  | succ count ih =>
      rw [halfCycles_succ, held_append, ih, squareWave_succ]
      simp [held, Call.holds, Call.driven]

theorem span_halfCycles (pin : UInt8) (half : UInt32) (count : Nat) :
    span (halfCycles pin half count) = half.toNat * count := by
  induction count with
  | zero => rfl
  | succ count ih =>
      rw [halfCycles_succ, span_append, ih, Nat.mul_succ]
      simp [Call.span]

theorem isMark_mark (pin : UInt8) (half duration : UInt32) :
    IsMark pin half duration (mark pin half duration) := by
  have hmodulated (h : half ≠ 0) :
      Shapes pin (squareWave half (duration.toNat / half.toNat)) (mark pin half duration) := by
    refine ⟨fun _ hcall => mem_mark hcall, ?_, ?_⟩
    · intro level
      rw [mark, if_neg h, UInt32.toNat_div, held_append, held_halfCycles]
      exact List.append_nil _
    · intro level
      rw [mark, if_neg h, List.foldl_append]
      simp [Call.driven]
  constructor
  · intro h
    rw [mark, if_pos h]
    exact isSpace_space pin duration
  · exact hmodulated
  · intro h level
    rw [(hmodulated h).held_eq, filter_squareWave]

/-- The time that a pulse takes: a mark ends with its last whole half cycle. -/
def pulseSpan (half : UInt32) (index : Nat) (duration : UInt32) : Nat :=
  if index % 2 = 0 ∧ half ≠ 0 then half.toNat * (duration.toNat / half.toNat) else duration.toNat

/-- The calls of the pulse with the given index: marks have even indices, and spaces odd ones. -/
def part (pin : UInt8) (half : UInt32) (index : Nat) (duration : UInt32) : List Call :=
  if index % 2 = 0 then mark pin half duration else space pin duration

theorem span_part (pin : UInt8) (half : UInt32) (index : Nat) (duration : UInt32) :
    span (part pin half index duration) = pulseSpan half index duration := by
  by_cases hindex : index % 2 = 0
  · by_cases hhalf : half = 0
    · simp [part, pulseSpan, hindex, mark, hhalf, space, Call.span]
    · simp [part, pulseSpan, hindex, mark, hhalf, span_halfCycles, Call.span]
  · simp [part, pulseSpan, hindex, space, Call.span]

theorem pulses_eq_flatten (pin : UInt8) (half : UInt32) (durations : List UInt32) :
    pulses pin half durations = (durations.mapIdx (part pin half)).flatten := by
  induction durations using pulses.induct with
  | case1 => rfl
  | case2 last => simp [pulses, part]
  | case3 m s rest ih =>
      have hparts : (fun index => part pin half (index + 1 + 1)) = part pin half := by
        funext index duration
        simp only [part, Nat.add_assoc, Nat.reduceAdd, Nat.add_mod_right]
      rw [pulses, ih, List.mapIdx_cons, List.mapIdx_cons, hparts]
      simp [part]

theorem span_flatten (parts : List (List Call)) : span parts.flatten = (parts.map span).sum := by
  induction parts with
  | nil => rfl
  | cons part parts ih => rw [List.flatten_cons, span_append, ih, List.map_cons, List.sum_cons]

theorem span_pulses (pin : UInt8) (half : UInt32) (durations : List UInt32) :
    span (pulses pin half durations) = (durations.mapIdx (pulseSpan half)).sum := by
  have hspans : (durations.mapIdx (part pin half)).map span = durations.mapIdx (pulseSpan half) := by
    apply List.ext_getElem?
    intro index
    rw [List.getElem?_map, List.getElem?_mapIdx, List.getElem?_mapIdx, Option.map_map]
    congr 1
    funext duration
    exact span_part pin half index duration
  rw [pulses_eq_flatten, span_flatten, hspans]

/-- A mark falls short of its duration by less than half a period. -/
theorem pulseSpan_bounds (half : UInt32) (index : Nat) (duration : UInt32) :
    pulseSpan half index duration ≤ duration.toNat ∧
      (half ≠ 0 → duration.toNat < pulseSpan half index duration + half.toNat) := by
  have hpos (h : half ≠ 0) : 0 < half.toNat :=
    Nat.pos_of_ne_zero fun hzero => h (UInt32.toNat_inj.mp hzero)
  rw [pulseSpan]
  split
  · exact ⟨Nat.mul_div_le _ _, fun h => Nat.lt_mul_div_succ _ (hpos h)⟩
  · exact ⟨Nat.le_refl _, fun h => Nat.lt_add_of_pos_right (hpos h)⟩

theorem mapIdx_pulseSpan_cons_cons (half m s : UInt32) (rest : List UInt32) :
    (m :: s :: rest).mapIdx (pulseSpan half) =
      pulseSpan half 0 m :: s.toNat :: rest.mapIdx (pulseSpan half) := by
  have hrest : (fun index => pulseSpan half (index + 1 + 1)) = pulseSpan half := by
    funext index duration
    simp only [pulseSpan, Nat.add_assoc, Nat.reduceAdd, Nat.add_mod_right]
  rw [List.mapIdx_cons, List.mapIdx_cons, hrest]
  simp [pulseSpan]

theorem sum_pulseSpan_le (half : UInt32) (durations : List UInt32) :
    (durations.mapIdx (pulseSpan half)).sum ≤ (durations.map UInt32.toNat).sum := by
  induction durations using pulses.induct with
  | case1 => exact Nat.le_refl _
  | case2 last =>
      have hlast := (pulseSpan_bounds half 0 last).1
      simpa using hlast
  | case3 m s rest ih =>
      have hmark := (pulseSpan_bounds half 0 m).1
      rw [mapIdx_pulseSpan_cons_cons]
      simp only [List.sum_cons, List.map_cons]
      omega

theorem sum_add_marks_le {half : UInt32} (h : half ≠ 0) (durations : List UInt32) :
    (durations.map UInt32.toNat).sum + (durations.length + 1) / 2 ≤
      (durations.mapIdx (pulseSpan half)).sum + (durations.length + 1) / 2 * half.toNat := by
  induction durations using pulses.induct with
  | case1 => exact Nat.zero_le _
  | case2 last =>
      have hlast := (pulseSpan_bounds half 0 last).2 h
      simp only [List.map_cons, List.map_nil, List.sum_cons, List.sum_nil, List.length_singleton,
        List.mapIdx_singleton]
      omega
  | case3 m s rest ih =>
      have hmark := (pulseSpan_bounds half 0 m).2 h
      have hmarks : ((m :: s :: rest).length + 1) / 2 = (rest.length + 1) / 2 + 1 := by
        simp only [List.length_cons]
        omega
      rw [hmarks, mapIdx_pulseSpan_cons_cons, Nat.succ_mul]
      simp only [List.sum_cons, List.map_cons]
      omega

theorem sum_pulseSpan_zero (durations : List UInt32) :
    (durations.mapIdx (pulseSpan 0)).sum = (durations.map UInt32.toNat).sum := by
  induction durations using pulses.induct with
  | case1 => rfl
  | case2 last => simp [pulseSpan]
  | case3 m s rest ih =>
      rw [mapIdx_pulseSpan_cons_cons]
      simp only [List.sum_cons, List.map_cons, ih]
      simp [pulseSpan]

theorem pulses_zero (pin : UInt8) (durations : List UInt32) :
    pulses pin 0 durations = durations.flatMap (space pin) := by
  induction durations using pulses.induct with
  | case1 => rfl
  | case2 last => simp [pulses, mark]
  | case3 m s rest ih => simp [pulses, mark, ih]

/-- Without a carrier no call drives a pin high. -/
theorem driven_eq_false_of_mem_pulses {durations : List UInt32} {call : Call}
    (h : call ∈ pulses pin 0 durations) (other : UInt8) : call.driven other false = false := by
  rw [pulses_zero] at h
  obtain ⟨duration, -, hcall⟩ := List.mem_flatMap.mp h
  simp only [space, List.mem_cons, List.not_mem_nil, or_false] at hcall
  rcases hcall with rfl | rfl
  · exact ite_self false
  · rfl

/-- Whether calls send pulses on a pin. They come in parts, one for each pulse, between a call that makes the pin a
low output and one that drives it low. Pulses with even indices are marks. -/
structure Sends (pin : UInt8) (half : UInt32) (pulses : List UInt32) (calls : List Call) : Prop where
  exists_parts : ∃ parts : List (List Call),
    calls = .output pin false :: parts.flatten ++ [.write pin false] ∧ parts.length = pulses.length ∧
      ∀ index duration, pulses[index]? = some duration → ∃ part, parts[index]? = some part ∧
        (index % 2 = 0 → IsMark pin half duration part) ∧ (index % 2 = 1 → IsSpace pin duration part)
  silent : half = 0 → ∀ call ∈ calls, ∀ other, call.driven other false = false
  span_eq : span calls = (pulses.mapIdx (pulseSpan half)).sum
  span_le : span calls ≤ (pulses.map UInt32.toNat).sum
  span_of_silent : half = 0 → span calls = (pulses.map UInt32.toNat).sum
  /-- Each mark falls short by less than half a period. -/
  le_span : half ≠ 0 → (pulses.map UInt32.toNat).sum + (pulses.length + 1) / 2 ≤
    span calls + (pulses.length + 1) / 2 * half.toNat

theorem sends_calls (pin : UInt8) (half : UInt32) (durations : List UInt32) :
    Sends pin half durations (calls pin half durations) := by
  have hspan : span (calls pin half durations) = (durations.mapIdx (pulseSpan half)).sum := by
    rw [calls, List.cons_append, span_cons, span_append, span_pulses]
    simp [Call.span]
  constructor
  · refine ⟨durations.mapIdx (part pin half), by rw [calls, pulses_eq_flatten], List.length_mapIdx, ?_⟩
    intro index duration hduration
    refine ⟨part pin half index duration, by rw [List.getElem?_mapIdx, hduration]; rfl, ?_, ?_⟩
    · intro hmark
      rw [part, if_pos hmark]
      exact isMark_mark pin half duration
    · intro hspace
      rw [part, if_neg (by omega)]
      exact isSpace_space pin duration
  · rintro rfl call hcall other
    rw [calls, List.cons_append, List.mem_cons, List.mem_append, List.mem_singleton] at hcall
    rcases hcall with rfl | hcall | rfl
    · exact ite_self false
    · exact driven_eq_false_of_mem_pulses hcall other
    · exact ite_self false
  · exact hspan
  · rw [hspan]
    exact sum_pulseSpan_le half durations
  · rintro rfl
    rw [hspan]
    exact sum_pulseSpan_zero durations
  · intro hcarrier
    rw [hspan]
    exact sum_add_marks_le hcarrier durations

theorem toNat_halfPeriod (frequency : UInt32) :
    (halfPeriod frequency).toNat = 1000000 / frequency.toNat / 2 := by
  rw [halfPeriod]
  split
  · rename_i h
    simp [h]
  · rw [UInt32.toNat_div, UInt32.toNat_div]
    rfl

/-- Whether calls are the transmission of pulses on a carrier, and so make its waveform. -/
structure Transmits (pin : UInt8) (frequency : UInt32) (durations : List UInt32) (made : List Call) : Prop where
  eq_calls : made = calls pin (halfPeriod frequency) durations
  exists_half : ∃ half, half.toNat = 1000000 / frequency.toNat / 2 ∧ Sends pin half durations made

theorem transmits_calls (pin : UInt8) (frequency : UInt32) (durations : List UInt32) :
    Transmits pin frequency durations (calls pin (halfPeriod frequency) durations) :=
  ⟨rfl, halfPeriod frequency, toNat_halfPeriod frequency, sends_calls pin _ durations⟩

end Waveform

namespace PulseWidth

theorem decodeMany_take (w : PulseWidth) (count : Nat) (bytes : List UInt8) :
    w.decodeMany count (bytes.take (count * w.bytes)) = w.decodeMany count bytes := by
  induction count generalizing bytes with
  | zero => rfl
  | succ count ih =>
      have hfront : (bytes.take ((count + 1) * w.bytes)).take w.bytes = bytes.take w.bytes := by
        rw [List.take_take, Nat.min_eq_left (Nat.le_mul_of_pos_left _ (Nat.succ_pos count))]
      have hrest : (bytes.take ((count + 1) * w.bytes)).drop w.bytes =
          (bytes.drop w.bytes).take (count * w.bytes) := by
        rw [List.drop_take, Nat.succ_mul, Nat.add_sub_cancel]
      rw [decodeMany, decodeMany, decode, hfront, hrest, ih, decode]

end PulseWidth

namespace Station

open Waveform

variable {ω : Type} [Platform ω]

theorem length_durations (s : Station) (data : List UInt8) :
    (s.durations data).length = min (data.length / s.pulseWidth.bytes) 65535 :=
  PulseWidth.length_decodeMany _ _ _

/-- A trailing part of a pulse is not sent. -/
theorem transmit_take (s : Station) (pin : UInt8) (frequency : UInt32) (data : List UInt8) (world : ω) :
    s.transmit pin frequency
        (data.take (min (data.length / s.pulseWidth.bytes) 65535 * s.pulseWidth.bytes)) world =
      s.transmit pin frequency data world := by
  have hcapacity : s.capacity
      (data.take (min (data.length / s.pulseWidth.bytes) 65535 * s.pulseWidth.bytes)).length =
        s.capacity data.length := by
    have hle : min (data.length / s.pulseWidth.bytes) 65535 * s.pulseWidth.bytes ≤ data.length :=
      Nat.le_trans (Nat.mul_le_mul_right _ (Nat.min_le_left _ _)) (Nat.div_mul_le_self _ _)
    rw [List.length_take, Nat.min_eq_left hle, capacity, capacity, PulseWidth.capacity,
      PulseWidth.capacity, Nat.mul_div_cancel _ s.pulseWidth.bytes_pos]
    omega
  have hdurations : s.durations
      (data.take (min (data.length / s.pulseWidth.bytes) 65535 * s.pulseWidth.bytes)) =
        s.durations data := by
    rw [durations, hcapacity]
    exact s.pulseWidth.decodeMany_take (s.capacity data.length) data
  simp only [transmit, hcapacity, hdurations]

theorem map_decode_eq_durations (s : Station) (data : List UInt8) :
    ((List.range (min (data.length / s.pulseWidth.bytes) 65535)).map fun index =>
      UInt32.ofNat (Word.value ((data.drop (index * s.pulseWidth.bytes)).take s.pulseWidth.bytes))) =
        s.durations data := by
  apply List.ext_getElem?
  intro index
  by_cases h : index < min (data.length / s.pulseWidth.bytes) 65535
  · have hdecode := s.pulseWidth.getElem?_decodeMany h data
    rw [List.getElem?_map, List.getElem?_range h]
    exact hdecode.symm
  · rw [List.getElem?_eq_none (by rw [List.length_map, List.length_range]; omega),
      List.getElem?_eq_none (by rw [length_durations]; omega)]

/-- What a transmission does, whatever the station did before: it sends the pulses in the store, and leaves out a
trailing part of one. -/
theorem transmit_waveform (s : Station) (pin : UInt8) (frequency : UInt32) (data : List UInt8)
    (world : Traced ω) :
    let count := min (data.length / s.pulseWidth.bytes) 65535
    let pulses := (List.range count).map fun index =>
      UInt32.ofNat (Word.value ((data.drop (index * s.pulseWidth.bytes)).take s.pulseWidth.bytes))
    (s.transmit pin frequency data world).1 = count ∧
      s.transmit pin frequency (data.take (count * s.pulseWidth.bytes)) world =
        s.transmit pin frequency data world ∧
      ∃ half calls, half.toNat = 1000000 / frequency.toNat / 2 ∧ Sends pin half pulses calls ∧
        Traced.Adds calls world (s.transmit pin frequency data world).2.2 := by
  intro count pulses
  have hpulses : pulses = s.durations data := s.map_decode_eq_durations data
  refine ⟨rfl, s.transmit_take pin frequency data world, halfPeriod frequency, _,
    toNat_halfPeriod frequency, sends_calls pin _ pulses, ?_⟩
  rw [hpulses]
  exact Traced.adds_tellAll _ world

end Station

end Infrared
