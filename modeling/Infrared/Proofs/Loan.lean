import Infrared.Proofs.Transcript

namespace Infrared

namespace Station

/-- What the owner of a station may do with it. -/
inductive Operation where
  | transmit (pin : UInt8) (frequency : UInt32) (pulses : List UInt8)
  | arm (pin : UInt8)
  | capture
  | reset
  deriving DecidableEq, Repr

/-- The pulses that were sent last while a capture waits for its first edge, if one does: as told by the operations
alone, from what it was before the last of them. -/
def Operation.sentWaiting (width : PulseWidth) (before : Option Nat) : Operation → Option Nat
  | .transmit _ _ pulses => before.map fun _ => width.capacity pulses.length
  | .arm _ => some 0
  | .capture | .reset => none

/-- A report describes a store if it counts the pulses in it, as the station does, and they fit. -/
structure Report.Describes (report : Report) (station : Station) (store : Buffer) : Prop where
  length_eq : report.count * station.pulseWidth.bytes = store.filled.length
  cursor_eq : station.cursor = report.count
  count_le : report.count ≤ station.capacity store.capacity

/-- A station, the store that it is lent for every capture, and their surroundings. -/
structure Loan (ω : Type) where
  station : Station
  store : Buffer
  world : ω

namespace Loan

variable {ω : Type} [Platform ω]

/-- What an operation reports, if anything, and what is then. -/
def perform (l : Loan ω) : Operation → Option Report × Loan ω
  | .transmit pin frequency pulses =>
    match l.station.transmit pin frequency pulses l.world with
    | (_, station, world) => (none, ⟨station, l.store, world⟩)
  | .arm pin =>
    match l.station.armCapture pin l.world with
    | (station, world) => (none, ⟨station, l.store, world⟩)
  | .capture =>
    match l.station.capture l.store l.world with
    | (report, station, store, world) => (report, ⟨station, store, world⟩)
  | .reset =>
    match l.station.reset l.world with
    | (station, world) => (none, ⟨station, l.store, world⟩)

def run (l : Loan ω) (ops : List Operation) : Loan ω :=
  ops.foldl (fun l op => (l.perform op).2) l

/-- What a capture does that was armed: its report counts on from the cursor, by the changes on the pin up to some
sample, and the store has the times between them. -/
structure Recorded (l : Loan ω) (n : Nat) (report : Report) (after : Loan ω) : Prop where
  count_eq : report.count = l.station.cursor + ((l.station.tape l.world).changes n).length
  filled_eq : after.store.filled =
    ((l.station.tape l.world).runs n).flatMap l.station.pulseWidth.encode
  station_eq : after.station = { l.station with armed := false, cursor := report.count }
  capacity_eq : after.store.capacity = l.store.capacity
  count_le : report.count ≤ max l.station.cursor (l.station.capacity l.store.capacity)

theorem recorded_of_transcribes {l : Loan ω} {n : Nat} {r : Recording} {ending : End} {after : ω}
    (hgoes : l.station.GoesOn (l.station.roomFor l.store.capacity) (l.station.tape l.world) n)
    (hr : r.Transcribes l.station l.store.capacity (l.station.tape l.world) n)
    (hcapture : l.station.capture l.store l.world =
      (some ⟨r.count, ending⟩, { l.station with armed := false, cursor := r.count }, r.pulses, after)) :
    (l.perform .capture).1 = some ⟨r.count, ending⟩ ∧
      l.Recorded n ⟨r.count, ending⟩ (l.perform .capture).2 := by
  obtain ⟨-, hchanges, -⟩ := hgoes.within
  have hle : r.count ≤ max l.station.cursor (l.station.capacity l.store.capacity) := by
    rw [roomFor] at hchanges
    have hcount := hr.count_eq
    omega
  simp only [perform, hcapture]
  exact ⟨trivial, hr.count_eq, hr.filled_eq, rfl, hr.capacity_eq, hle⟩

theorem exists_recorded {l : Loan ω} (harmed : l.station.armed = true) :
    ∃ n report, (l.perform .capture).1 = some report ∧ l.Recorded n report (l.perform .capture).2 ∧
      ∀ m ending, m ≤ l.station.budget l.world →
        l.station.EndsAt (l.station.roomFor l.store.capacity) (l.station.tape l.world) m ending →
        m = n ∧ ending = report.ending := by
  rcases capture_ends_or_goesOn harmed l.store l.world with
    ⟨n, ending, r, -, hends, hr, hcapture⟩ | ⟨hgoes, r, hr, hcapture⟩
  · obtain ⟨hreport, hrecorded⟩ := recorded_of_transcribes hends.goesOn hr hcapture
    exact ⟨n, _, hreport, hrecorded, fun m other _ hother => hends.eq hother⟩
  · obtain ⟨hreport, hrecorded⟩ := recorded_of_transcribes hgoes hr hcapture
    refine ⟨_, _, hreport, hrecorded, ?_⟩
    intro m ending hle hends
    exact absurd hgoes (hends.not_goesOn (Nat.lt_succ_of_le hle))

theorem capture_of_not_armed {l : Loan ω} (h : l.station.armed = false) :
    l.perform .capture = (none, ⟨l.station, l.store, Platform.tell .disableInterrupts l.world⟩) := by
  simp only [perform, Station.capture_of_not_armed h]

theorem Recorded.length_eq {l after : Loan ω} {n : Nat} {report : Report} (h : l.Recorded n report after) :
    after.store.filled.length =
      ((l.station.tape l.world).changes n).length * l.station.pulseWidth.bytes := by
  rw [h.filled_eq, PulseWidth.length_flatMap_encode, Tape.length_runs]

/-- Only what was sent while the capture waited comes between a report and the store. -/
theorem Recorded.describes_iff {l after : Loan ω} {n : Nat} {report : Report}
    (h : l.Recorded n report after) :
    report.Describes after.station after.store ↔ l.station.cursor = 0 := by
  have hwidth : after.station.pulseWidth = l.station.pulseWidth := by rw [h.station_eq]
  constructor
  · intro hdescribes
    have hlength := hdescribes.length_eq
    rw [hwidth, h.length_eq] at hlength
    have hcount := Nat.eq_of_mul_eq_mul_right l.station.pulseWidth.bytes_pos hlength
    rw [h.count_eq] at hcount
    omega
  · intro hcursor
    refine ⟨?_, by rw [h.station_eq], ?_⟩
    · rw [hwidth, h.length_eq, h.count_eq, hcursor, Nat.zero_add]
    · have hle := h.count_le
      rw [hcursor, Nat.zero_max] at hle
      rw [capacity, hwidth, h.capacity_eq]
      exact hle

/-- Whether a station is what the operations on it tell. -/
structure Follows (l : Loan ω) (width : PulseWidth) (room : Nat) (sent : Option Nat) : Prop where
  width_eq : l.station.pulseWidth = width
  capacity_eq : l.store.capacity = room
  armed_eq : l.station.armed = sent.isSome
  cursor_eq : ∀ count ∈ sent, l.station.cursor = count

theorem Follows.perform {l : Loan ω} {width : PulseWidth} {room : Nat} {sent : Option Nat}
    (h : l.Follows width room sent) (op : Operation) :
    (l.perform op).2.Follows width room (op.sentWaiting width sent) := by
  cases op with
  | transmit pin frequency pulses =>
      have hcount : l.station.capacity pulses.length = width.capacity pulses.length := by
        rw [capacity, h.width_eq]
      refine ⟨h.width_eq, h.capacity_eq, ?_, ?_⟩
      · rw [Operation.sentWaiting, Option.isSome_map]
        exact h.armed_eq
      · intro count hsent
        obtain ⟨_, -, rfl⟩ := Option.map_eq_some_iff.mp hsent
        exact hcount
  | arm pin =>
      refine ⟨h.width_eq, h.capacity_eq, rfl, ?_⟩
      intro count hsent
      exact Option.some.inj hsent
  | capture =>
      cases harmed : l.station.armed with
      | true =>
          obtain ⟨n, report, -, hrecorded, -⟩ := exists_recorded harmed
          refine ⟨?_, hrecorded.capacity_eq.trans h.capacity_eq, ?_, by simp [Operation.sentWaiting]⟩
          · rw [hrecorded.station_eq]
            exact h.width_eq
          · rw [hrecorded.station_eq]
            rfl
      | false =>
          rw [capture_of_not_armed harmed]
          exact ⟨h.width_eq, h.capacity_eq, harmed, by simp [Operation.sentWaiting]⟩
  | reset => exact ⟨h.width_eq, h.capacity_eq, rfl, by simp [Operation.sentWaiting]⟩

theorem Follows.run {l : Loan ω} {width : PulseWidth} {room : Nat} {sent : Option Nat}
    (h : l.Follows width room sent) (ops : List Operation) :
    (l.run ops).Follows width room (ops.foldl (Operation.sentWaiting width) sent) := by
  induction ops generalizing l sent with
  | nil => exact h
  | cons op ops ih => exact ih (h.perform op)

/-- Whatever was done to a new station, a capture reports if and only if one was armed and not given up since. The
report counts the pulses in the store after those that were sent last while the capture waited, so it describes the
store if and only if nothing was. -/
theorem report_run (width : PulseWidth) (signalTimeout pulseTimeout : UInt32) (store : Buffer) (world : ω)
    (ops : List Operation) :
    let l := (⟨Station.new width signalTimeout pulseTimeout, store, world⟩ : Loan ω).run ops
    let after := (l.perform .capture).2
    match ops.foldl (Operation.sentWaiting width) none with
    | none => (l.perform .capture).1 = none ∧ after.station = l.station ∧ after.store = l.store
    | some sent =>
      ∃ report n, (l.perform .capture).1 = some report ∧
        after.store.filled = ((l.station.tape l.world).runs n).flatMap width.encode ∧
        report.count = sent + ((l.station.tape l.world).runs n).length ∧
        after.station.cursor = report.count ∧
        report.count ≤ max sent (width.capacity store.capacity) ∧
        (report.Describes after.station after.store ↔ sent = 0) := by
  intro l after
  have hnew : Follows (⟨Station.new width signalTimeout pulseTimeout, store, world⟩ : Loan ω) width
      store.capacity none := ⟨rfl, rfl, rfl, by simp⟩
  have hfollows : l.Follows width store.capacity _ := hnew.run ops
  cases hsent : ops.foldl (Operation.sentWaiting width) none with
  | none =>
      rw [hsent] at hfollows
      have hcapture := capture_of_not_armed hfollows.armed_eq
      simp only [after, hcapture]
      exact ⟨trivial, trivial, trivial⟩
  | some sent =>
      rw [hsent] at hfollows
      have hcursor := hfollows.cursor_eq sent rfl
      obtain ⟨n, report, hreport, hrecorded, -⟩ := exists_recorded hfollows.armed_eq
      refine ⟨report, n, hreport, ?_, ?_, ?_, ?_, ?_⟩
      · rw [← hfollows.width_eq]
        exact hrecorded.filled_eq
      · rw [Tape.length_runs, ← hcursor]
        exact hrecorded.count_eq
      · exact congrArg Station.cursor hrecorded.station_eq
      · have hle := hrecorded.count_le
        rw [capacity, hcursor, hfollows.width_eq, hfollows.capacity_eq] at hle
        exact hle
      · rw [← hcursor]
        exact hrecorded.describes_iff

/-- What was sent before the capture was armed is not counted. -/
theorem report_run_transmit_arm :
    let l := (⟨Station.new .bits8 1000 5, Buffer.new 16, ({} : Bench).schedule [3, 2] 2⟩ :
      Loan Bench).run [.transmit 0 0 [1, 1], .arm 2]
    let after := (l.perform .capture).2
    ∃ report, (l.perform .capture).1 = some report ∧ report.Describes after.station after.store ∧
      after.station.cursor = report.count := by
  obtain ⟨report, n, hreport, -, -, hcursor, -, hdescribes⟩ := report_run .bits8 1000 5 (Buffer.new 16)
    (({} : Bench).schedule [3, 2] 2) [.transmit 0 0 [1, 1], .arm 2]
  exact ⟨report, hreport, hdescribes.mpr rfl, hcursor⟩

/-- Two pulses that were sent while the capture waited are counted with the two that it recorded. -/
theorem not_describes_of_transmit_waiting :
    let l := (⟨Station.new .bits8 1000 5, Buffer.new 16, ({} : Bench).schedule [3, 2] 2⟩ :
      Loan Bench).run [.arm 2, .transmit 0 0 [1, 1]]
    let after := (l.perform .capture).2
    (l.perform .capture).1 = some ⟨4, .pulseTimeout⟩ ∧ after.store.filled = [3, 2] ∧
      after.station.cursor = 4 ∧
      ¬(⟨4, .pulseTimeout⟩ : Report).Describes after.station after.store := by
  intro l after
  have hat : l.station.EndsAt (l.station.roomFor l.store.capacity) (l.station.tape l.world) 10
      .pulseTimeout := by decide +kernel
  obtain ⟨n, report, hreport, hrecorded, hends⟩ := exists_recorded (l := l) rfl
  obtain ⟨rfl, hending⟩ := hends 10 .pulseTimeout (by decide) hat
  have hcount : report.count = 4 := hrecorded.count_eq.trans (by decide +kernel)
  obtain ⟨count, ending⟩ := report
  subst hcount hending
  refine ⟨hreport, hrecorded.filled_eq.trans (by decide +kernel), congrArg Station.cursor hrecorded.station_eq,
    ?_⟩
  rw [hrecorded.describes_iff]
  decide

end Loan

end Station

end Infrared
