import Mathlib.Data.UInt
import Infrared.Proofs.Answer
import Infrared.Proofs.Capture

/-!
What a capture does, told by the samples of the pin alone. A tape is all that a pin shows, sample by sample; a
capture goes along it until a sample ends it. Main statement: what a capture has recorded is what the tape says of
the samples before the one that ended it (`Station.capture_ends_or_goesOn`).
-/

namespace Infrared

/-- The levels of a pin and the times at which they were read. -/
structure Tape where
  level : Nat → Bool
  time : Nat → UInt32

namespace Tape

/-- Whether the level at a sample is another than at the sample before it. -/
def Changes (t : Tape) (n : Nat) : Prop :=
  0 < n ∧ t.level n ≠ t.level (n - 1)

instance (t : Tape) (n : Nat) : Decidable (t.Changes n) :=
  inferInstanceAs (Decidable (_ ∧ _))

/-- The changes before a sample, in order. -/
def changes (t : Tape) (n : Nat) : List Nat :=
  (List.range n).filter fun m => t.Changes m

/-- The last change before a sample, or the first sample of all if there is none. -/
def lastChange (t : Tape) (n : Nat) : Nat :=
  (t.changes n).getLastD 0

/-- The time from each change before a sample back to the change before it, and for the first one back to the first
sample. -/
def runs (t : Tape) (n : Nat) : List UInt32 :=
  List.zipWith (fun since change => t.time change - t.time since) (0 :: t.changes n) (t.changes n)

variable {t : Tape} {n : Nat}

theorem changes_succ_of_changes (h : t.Changes n) : t.changes (n + 1) = t.changes n ++ [n] := by
  simp [changes, List.range_succ, List.filter_append, h]

theorem changes_succ_of_not_changes (h : ¬t.Changes n) : t.changes (n + 1) = t.changes n := by
  simp [changes, List.range_succ, List.filter_append, h]

theorem lastChange_succ_of_changes (h : t.Changes n) : t.lastChange (n + 1) = n := by
  rw [lastChange, changes_succ_of_changes h, List.getLastD_concat]

theorem lastChange_succ_of_not_changes (h : ¬t.Changes n) : t.lastChange (n + 1) = t.lastChange n := by
  rw [lastChange, changes_succ_of_not_changes h]
  rfl

theorem zipWith_cons_concat {α β : Type} (f : α → α → β) (first : α) (l : List α) (last : α) :
    List.zipWith f (first :: (l ++ [last])) (l ++ [last]) =
      List.zipWith f (first :: l) l ++ [f (l.getLastD first) last] := by
  induction l generalizing first with
  | nil => rfl
  | cons a l ih =>
      have htail := ih a
      rw [List.getLastD_cons, List.cons_append, List.zipWith_cons_cons, htail]
      rfl

theorem runs_succ_of_changes (h : t.Changes n) :
    t.runs (n + 1) = t.runs n ++ [t.time n - t.time (t.lastChange n)] := by
  rw [runs, changes_succ_of_changes h]
  exact zipWith_cons_concat (fun since change => t.time change - t.time since) 0 (t.changes n) n

theorem runs_succ_of_not_changes (h : ¬t.Changes n) : t.runs (n + 1) = t.runs n := by
  rw [runs, changes_succ_of_not_changes h]
  rfl

@[simp] theorem length_runs (t : Tape) (n : Nat) : (t.runs n).length = (t.changes n).length := by
  simp [runs]

@[simp] theorem changes_one (t : Tape) : t.changes 1 = [] := by
  simp [changes, Changes]

@[simp] theorem runs_one (t : Tape) : t.runs 1 = [] := by
  simp [runs]

@[simp] theorem lastChange_one (t : Tape) : t.lastChange 1 = 0 := by
  simp [lastChange]

/-- The times between changes add up to the time of the last one. -/
theorem sum_runs (t : Tape) (n : Nat) : (t.runs n).sum = t.time (t.lastChange n) - t.time 0 := by
  induction n with
  | zero => exact (UInt32.sub_self _).symm
  | succ n ih =>
      by_cases h : t.Changes n
      · rw [runs_succ_of_changes h, lastChange_succ_of_changes h, List.sum_append, List.sum_singleton, ih]
        grind
      · rw [runs_succ_of_not_changes h, lastChange_succ_of_not_changes h, ih]

end Tape

namespace Platform

variable {ω : Type} [Platform ω]

/-- The surroundings after some samples of a pin. -/
def sampled (pin : UInt8) (world : ω) : Nat → ω
  | 0 => world
  | n + 1 => (sample pin (sampled pin world n)).2

/-- All that a pin shows from a moment on. -/
def tape (pin : UInt8) (world : ω) : Tape where
  level n := (sample pin (sampled pin world n)).1.1
  time n := (sample pin (sampled pin world n)).1.2

end Platform

namespace Station

/-- Why a sample of a tape ends a capture that has room for some pulses, if it does. -/
def endsAt? (s : Station) (room : Nat) (t : Tape) (n : Nat) : Option End :=
  if s.signalTimeout ≤ t.time n - t.time 0 then some .signalTimeout
  else if s.pulseTimeout ≤ t.time n - t.time (t.lastChange n) then some .pulseTimeout
  else if t.Changes n ∧ room ≤ (t.changes n).length then some .bufferOverflow
  else none

/-- Whether no sample before the given one ends a capture. The first sample of all only begins it. -/
def GoesOn (s : Station) (room : Nat) (t : Tape) (n : Nat) : Prop :=
  ∀ m, 0 < m → m < n → s.endsAt? room t m = none

/-- Whether a sample is the first one that ends a capture, and why it does. -/
structure EndsAt (s : Station) (room : Nat) (t : Tape) (n : Nat) (ending : End) : Prop where
  pos : 0 < n
  goesOn : s.GoesOn room t n
  ends : s.endsAt? room t n = some ending

section Bounds

variable {s : Station} {room : Nat} {t : Tape} {n : Nat}

instance : Decidable (s.GoesOn room t n) :=
  decidable_of_iff (∀ m, m < n → 0 < m → s.endsAt? room t m = none)
    ⟨fun h m hpos hlt => h m hlt hpos, fun h m hlt hpos => h m hpos hlt⟩

instance (ending : End) : Decidable (s.EndsAt room t n ending) :=
  decidable_of_iff (0 < n ∧ s.GoesOn room t n ∧ s.endsAt? room t n = some ending)
    ⟨fun h => ⟨h.1, h.2.1, h.2.2⟩, fun h => ⟨h.pos, h.goesOn, h.ends⟩⟩

theorem goesOn_one (s : Station) (room : Nat) (t : Tape) : s.GoesOn room t 1 := by
  intro m hpos hlt
  omega

theorem GoesOn.of_le {m : Nat} (h : s.GoesOn room t n) (hle : m ≤ n) : s.GoesOn room t m := by
  intro i hpos hlt
  exact h i hpos (Nat.lt_of_lt_of_le hlt hle)

theorem GoesOn.succ (h : s.GoesOn room t n) (hnone : s.endsAt? room t n = none) :
    s.GoesOn room t (n + 1) := by
  intro m hpos hlt
  rcases Nat.lt_succ_iff_lt_or_eq.mp hlt with hlt | rfl
  · exact h m hpos hlt
  · exact hnone

theorem endsAt?_eq_none_iff : s.endsAt? room t n = none ↔
    t.time n - t.time 0 < s.signalTimeout ∧ t.time n - t.time (t.lastChange n) < s.pulseTimeout ∧
      (t.Changes n → (t.changes n).length < room) := by
  simp only [endsAt?]
  split
  · rename_i hsignal
    simp [UInt32.not_lt.mpr hsignal]
  · rename_i hsignal
    split
    · rename_i hpulse
      simp [UInt32.not_lt.mpr hpulse]
    · rename_i hpulse
      rw [UInt32.not_le] at hsignal hpulse
      split
      · rename_i hfull
        simp [hsignal, hpulse, hfull]
      · rename_i hfull
        simp only [hsignal, hpulse, true_and, true_iff]
        intro hchanges
        exact Nat.lt_of_not_le fun hle => hfull ⟨hchanges, hle⟩

theorem EndsAt.eq {m : Nat} {ending other : End} (h : s.EndsAt room t n ending)
    (h' : s.EndsAt room t m other) : m = n ∧ other = ending := by
  have hle : ∀ {i j : Nat} {e f : End}, s.EndsAt room t i e → s.EndsAt room t j f → i ≤ j := by
    intro i j e f hi hj
    refine Nat.le_of_not_lt fun hlt => ?_
    have hnone := hi.goesOn j hj.pos hlt
    rw [hj.ends] at hnone
    exact Option.some_ne_none _ hnone
  obtain rfl := Nat.le_antisymm (hle h' h) (hle h h')
  exact ⟨rfl, Option.some.inj (h'.ends.symm.trans h.ends)⟩

theorem EndsAt.not_goesOn {m : Nat} {ending : End} (h : s.EndsAt room t n ending) (hlt : n < m) :
    ¬s.GoesOn room t m := by
  intro hgoes
  have hnone := hgoes n h.pos hlt
  rw [h.ends] at hnone
  exact Option.some_ne_none _ hnone

theorem EndsAt.ne_abandoned {ending : End} (h : s.EndsAt room t n ending) : ending ≠ .abandoned := by
  rintro rfl
  have hends := h.ends
  unfold endsAt? at hends
  split at hends
  · simp at hends
  · split at hends
    · simp at hends
    · split at hends
      · simp at hends
      · simp at hends

/-- What was recorded while no sample ended the capture is within all of its limits. -/
theorem GoesOn.within (h : s.GoesOn room t n) :
    (∀ run ∈ t.runs n, run < s.pulseTimeout) ∧ (t.changes n).length ≤ room ∧
      (t.runs n = [] ∨ (t.runs n).sum < s.signalTimeout) := by
  induction n with
  | zero => exact ⟨by simp [Tape.runs, Tape.changes], Nat.zero_le _, .inl rfl⟩
  | succ n ih =>
      obtain ⟨hpulse, hroom, hsignal⟩ := ih (h.of_le (Nat.le_succ n))
      by_cases hchanges : t.Changes n
      · have hnone := h n hchanges.1 (Nat.lt_succ_self n)
        obtain ⟨hsince, hlast, hleft⟩ := endsAt?_eq_none_iff.mp hnone
        refine ⟨?_, ?_, .inr ?_⟩
        · intro run hrun
          rw [Tape.runs_succ_of_changes hchanges, List.mem_append, List.mem_singleton] at hrun
          rcases hrun with hrun | rfl
          · exact hpulse run hrun
          · exact hlast
        · rw [Tape.changes_succ_of_changes hchanges, List.length_append, List.length_singleton]
          exact hleft hchanges
        · rw [Tape.sum_runs, Tape.lastChange_succ_of_changes hchanges]
          exact hsince
      · rw [Tape.runs_succ_of_not_changes hchanges, Tape.changes_succ_of_not_changes hchanges]
        exact ⟨hpulse, hroom, hsignal⟩

end Bounds

/-- Whether a recording has of a tape what comes before a sample. -/
structure Recording.Transcribes (r : Recording) (s : Station) (capacity : Nat) (t : Tape) (n : Nat) :
    Prop where
  pos : 0 < n
  start_eq : r.start = t.time 0
  last_eq : r.last = t.time (t.lastChange n)
  level_eq : r.level = t.level (n - 1)
  count_eq : r.count = s.cursor + (t.changes n).length
  filled_eq : r.pulses.filled = (t.runs n).flatMap s.pulseWidth.encode
  capacity_eq : r.pulses.capacity = capacity

/-- The pulses that a capture over a store of some bytes has room for. -/
def roomFor (s : Station) (capacity : Nat) : Nat :=
  s.capacity capacity - s.cursor

namespace Recording.Transcribes

variable {s : Station} {r : Recording} {capacity : Nat} {t : Tape} {n : Nat}

theorem level_ne_of_changes (h : r.Transcribes s capacity t n) (hchanges : t.Changes n) :
    t.level n ≠ r.level := by
  rw [h.level_eq]
  exact hchanges.2

theorem level_eq_of_not_changes (h : r.Transcribes s capacity t n) (hchanges : ¬t.Changes n) :
    t.level n = r.level := by
  rw [h.level_eq]
  exact Decidable.byContradiction fun hne => hchanges ⟨h.pos, hne⟩

theorem ending?_eq (h : r.Transcribes s capacity t n) :
    s.ending? r (t.level n) (t.time n) = s.endsAt? (s.roomFor capacity) t n := by
  have hfull : s.capacity capacity ≤ r.count ↔ s.roomFor capacity ≤ (t.changes n).length := by
    rw [h.count_eq, roomFor]
    omega
  rw [ending?, endsAt?, h.start_eq, h.last_eq, h.capacity_eq]
  by_cases hchanges : t.Changes n
  · simp only [hchanges, true_and, hfull, if_neg (h.level_ne_of_changes hchanges)]
  · simp only [hchanges, false_and, if_pos (h.level_eq_of_not_changes hchanges), if_false]

theorem length_filled_le (h : r.Transcribes s capacity t n) :
    r.pulses.filled.length ≤ r.count * s.pulseWidth.bytes := by
  have hlength : r.pulses.filled.length = (t.changes n).length * s.pulseWidth.bytes := by
    rw [h.filled_eq, ← Tape.length_runs]
    exact s.pulseWidth.length_flatMap_encode (t.runs n)
  rw [hlength, h.count_eq]
  exact Nat.mul_le_mul_right _ (Nat.le_add_left _ _)

theorem note (h : r.Transcribes s capacity t n)
    (hnone : s.endsAt? (s.roomFor capacity) t n = none) :
    (r.note s.pulseWidth (t.level n) (t.time n)).Transcribes s capacity t (n + 1) := by
  rw [← h.ending?_eq] at hnone
  by_cases hchanges : t.Changes n
  · have hlevel := h.level_ne_of_changes hchanges
    have hleft := bytes_le_left_of_length_filled_le h.length_filled_le hnone hlevel
    have hlength := s.pulseWidth.length_encode (t.time n - r.last)
    have hfilled := filled_writeSpare_skip r.pulses (Nat.le_trans (Nat.le_of_eq hlength) hleft)
    rw [hlength] at hfilled
    rw [Recording.note, if_neg hlevel]
    refine ⟨Nat.succ_pos n, h.start_eq, ?_, rfl, ?_, ?_, h.capacity_eq⟩
    · rw [Tape.lastChange_succ_of_changes hchanges]
    · rw [Tape.changes_succ_of_changes hchanges, List.length_append, List.length_singleton,
        ← Nat.add_assoc, ← h.count_eq]
    · rw [hfilled, h.filled_eq, h.last_eq, Tape.runs_succ_of_changes hchanges, List.flatMap_append,
        List.flatMap_singleton]
  · have hlevel := h.level_eq_of_not_changes hchanges
    rw [Recording.note, if_pos hlevel]
    refine ⟨Nat.succ_pos n, h.start_eq, ?_, hlevel.symm, ?_, ?_, h.capacity_eq⟩
    · rw [Tape.lastChange_succ_of_not_changes hchanges]
      exact h.last_eq
    · rw [Tape.changes_succ_of_not_changes hchanges]
      exact h.count_eq
    · rw [Tape.runs_succ_of_not_changes hchanges]
      exact h.filled_eq

end Recording.Transcribes

/-- What a recording has that has begun with the first sample of a tape. -/
theorem transcribes_first (s : Station) (t : Tape) (store : Buffer) :
    Recording.Transcribes ⟨t.time 0, t.time 0, t.level 0, s.cursor, store.reset⟩ s store.capacity t 1 := by
  refine ⟨Nat.one_pos, rfl, ?_, rfl, ?_, ?_, rfl⟩
  · rw [Tape.lastChange_one]
  · rw [Tape.changes_one]
    rfl
  · rw [Tape.runs_one, Buffer.filled_reset]
    rfl

variable {ω : Type} [Platform ω]

open Platform (sampled)

/-- A capture goes along the tape until a sample ends it, or until its budget of samples is used up. -/
theorem record_sampled {s : Station} {world : ω} {capacity : Nat} (budget : Nat) {n : Nat} {r : Recording}
    (h : r.Transcribes s capacity (Platform.tape s.pin world) n)
    (hbefore : s.GoesOn (s.roomFor capacity) (Platform.tape s.pin world) n) :
    (∃ m ending q, m < n + budget ∧
      s.EndsAt (s.roomFor capacity) (Platform.tape s.pin world) m ending ∧
      q.Transcribes s capacity (Platform.tape s.pin world) m ∧
      s.record budget r (sampled s.pin world n) = (ending, q, sampled s.pin world (m + 1))) ∨
    (s.GoesOn (s.roomFor capacity) (Platform.tape s.pin world) (n + budget) ∧
      ∃ q, q.Transcribes s capacity (Platform.tape s.pin world) (n + budget) ∧
        s.record budget r (sampled s.pin world n) =
          (.abandoned, q, sampled s.pin world (n + budget))) := by
  induction budget generalizing n r with
  | zero => exact .inr ⟨hbefore, r, h, rfl⟩
  | succ budget ih =>
      have hending := h.ending?_eq
      cases hends : s.endsAt? (s.roomFor capacity) (Platform.tape s.pin world) n with
      | some ending =>
          rw [hends] at hending
          exact .inl ⟨n, ending, r, by omega, ⟨h.pos, hbefore, hends⟩, h, record_succ_of_some budget hending⟩
      | none =>
          rw [hends] at hending
          have hlater := ih (h.note hends) (hbefore.succ hends)
          rw [Nat.add_assoc n 1 budget, Nat.add_comm 1 budget] at hlater
          rw [record_succ_of_none budget hending]
          exact hlater

/-- What a station samples that is armed. -/
def tape (s : Station) (world : ω) : Tape :=
  Platform.tape s.pin (Platform.tell .disableInterrupts world)

/-- How many samples a capture may take after the first one. -/
def budget (s : Station) (world : ω) : Nat :=
  Platform.patience (sampled s.pin (Platform.tell .disableInterrupts world) 1)

/-- A capture goes along its tape until a sample ends it, or for as long as the platform waits. -/
theorem capture_ends_or_goesOn {s : Station} (harmed : s.armed = true) (store : Buffer) (world : ω) :
    (∃ n ending, ∃ r : Recording, n ≤ s.budget world ∧
      s.EndsAt (s.roomFor store.capacity) (s.tape world) n ending ∧
      r.Transcribes s store.capacity (s.tape world) n ∧
      s.capture store world = (some ⟨r.count, ending⟩,
        { s with armed := false, cursor := r.count }, r.pulses,
        sampled s.pin (Platform.tell .disableInterrupts world) (n + 1))) ∨
    (s.GoesOn (s.roomFor store.capacity) (s.tape world) (s.budget world + 1) ∧
      ∃ r : Recording, r.Transcribes s store.capacity (s.tape world) (s.budget world + 1) ∧
        s.capture store world = (some ⟨r.count, .abandoned⟩,
          { s with armed := false, cursor := r.count }, r.pulses,
          sampled s.pin (Platform.tell .disableInterrupts world) (s.budget world + 1))) := by
  have hcapture := capture_of_armed harmed store world
  change s.capture store world =
    let recorded := s.record (s.budget world) ⟨(s.tape world).time 0, (s.tape world).time 0,
      (s.tape world).level 0, s.cursor, store.reset⟩
        (sampled s.pin (Platform.tell .disableInterrupts world) 1)
    (some ⟨recorded.2.1.count, recorded.1⟩, { s with armed := false, cursor := recorded.2.1.count },
      recorded.2.1.pulses, recorded.2.2) at hcapture
  rcases record_sampled (s.budget world) (transcribes_first s (s.tape world) store)
    (goesOn_one s _ _) with
    ⟨n, ending, r, hlt, hends, hr, hrecord⟩ | ⟨hgoes, r, hr, hrecord⟩
  · rw [hrecord] at hcapture
    exact .inl ⟨n, ending, r, by omega, hends, hr, hcapture⟩
  · rw [Nat.add_comm 1] at hgoes hr hrecord
    rw [hrecord] at hcapture
    exact .inr ⟨hgoes, r, hr, hcapture⟩

end Station

end Infrared
