import Infrared.Proofs.Device.Effect
import Infrared.Proofs.Device.Stray

namespace Infrared

/-- Whether a call takes a pin: it drives the one, or makes the other one ready to be watched. -/
def Call.TakesPin : Call → Prop
  | output _ _ | write _ _ | input _ => True
  | _ => False

/-- Whether a call neither takes a pin nor enables interrupts. -/
def Call.Still (call : Call) : Prop :=
  ¬call.TakesPin ∧ call ≠ enableInterrupts

theorem Call.still_of_minor {call : Call} (h : call.Minor) : call.Still := by
  cases call with
  | output pin level => exact absurd h id
  | input pin => exact absurd h id
  | write pin level => exact absurd h id
  | enableInterrupts => exact absurd h id
  | _ => exact ⟨id, by simp⟩

theorem Call.ne_enableInterrupts_of_drives {call : Call} (h : call.Drives) :
    call ≠ enableInterrupts := by
  rintro rfl
  exact h

namespace Traced

variable {ω : Type} {t u : Traced ω}

/-- Whether no pin was taken while interrupts were enabled, which is while a capture is armed. -/
def Arbitrated (t : Traced ω) : Prop :=
  ∀ before call after, t.calls = before ++ call :: after → call.TakesPin →
    before.foldl Call.switch false = false

theorem arbitrated_of_history_eq (h : t.Arbitrated) {entries : List Entry}
    (hhistory : u.history = t.history ++ entries)
    (hentries : ∀ before call after, entries.map (·.call) = before ++ call :: after → call.TakesPin →
      before.foldl Call.switch t.interruptsEnabled = false) : u.Arbitrated := by
  intro before call after hcalls hcall
  rw [calls, hhistory, List.map_append] at hcalls
  rcases List.append_eq_append_iff.mp hcalls with ⟨between, rfl, hnew⟩ | ⟨between, hold, hnew⟩
  · rw [List.foldl_append]
    exact hentries between call after hnew hcall
  · cases between with
    | nil =>
        rw [List.append_nil] at hold
        have henabled := hentries [] call after hnew.symm hcall
        rw [List.foldl_nil, interruptsEnabled, calls, hold] at henabled
        exact henabled
    | cons first between =>
        simp only [List.cons_append, List.cons.injEq] at hnew
        obtain ⟨rfl, -⟩ := hnew
        exact h before call between hold hcall

end Traced

theorem foldl_switch_eq_false {calls : List Call} (h : ∀ call ∈ calls, call ≠ .enableInterrupts) :
    calls.foldl Call.switch false = false := by
  induction calls with
  | nil => rfl
  | cons call calls ih =>
      have hcall : call.switch false = false := by
        have hne := h call List.mem_cons_self
        cases call with
        | enableInterrupts => exact absurd rfl hne
        | _ => rfl
      rw [List.foldl_cons, hcall]
      exact ih fun other hother => h other (List.mem_cons_of_mem _ hother)

namespace Session

/-- How many pulses were recorded for the request of a conversation. -/
def recorded? (s : Session) : Option Nat :=
  match s.conversation with
  | some ⟨_, .process (.receive report)⟩ => report.map (·.count)
  | some ⟨_, .response (.captured count) _ _⟩ => some count
  | _ => none

/-- Whether a session has what another one has recorded. -/
structure Retains (s t : Session) : Prop where
  scratch_eq : t.scratch = s.scratch
  recorded?_eq : t.recorded? = s.recorded?

/-- Whether a session has no conversation any more, or still has what another one has recorded. -/
def EndsOrRetains (s t : Session) : Prop :=
  t.connection? = none ∨ s.Retains t

variable {ω : Type} [Platform ω] {s t : Session} {count : Nat}

omit [Platform ω] in
theorem Retains.refl (s : Session) : s.Retains s :=
  ⟨rfl, rfl⟩

omit [Platform ω] in
theorem endsOrRetains_of_eq (h : t = s) : s.EndsOrRetains t := by
  subst h
  exact .inr (.refl t)

omit [Platform ω] in
theorem Retains.trans {u : Session} (h : s.Retains t) (h' : t.Retains u) : s.Retains u :=
  ⟨h'.scratch_eq.trans h.scratch_eq, h'.recorded?_eq.trans h.recorded?_eq⟩

omit [Platform ω] in
theorem isAttached_of_recorded (h : s.recorded? = some count) : s.isAttached = true := by
  cases hconversation : s.conversation with
  | some conversation => simp [isAttached, hconversation]
  | none => simp [recorded?, hconversation] at h

omit [Platform ω] in
theorem label_ne_of_recorded (h : s.recorded? = some count) : s.label ≠ "Request" := by
  obtain ⟨limits, inbound, outbound, scratch, conversation⟩ := s
  rcases conversation with _ | ⟨connection, reading | request | reply⟩
  · simp [label]
  · simp [recorded?] at h
  · simp [label, Phase.label]
  · simp [label, Phase.label]

/-- Sending what was recorded leaves it as it is. -/
theorem endsOrRetains_stepResponse (hrecorded : s.recorded? = some count) {connection : Connection}
    {next : Nat} {before board : Board ω}
    (hstep : s.step before = s.stepResponse connection (.captured count) next board) :
    s.EndsOrRetains (s.run before).2.1 := by
  rcases hencode : (Reply.captured count).encode s.limits.pulseWidth s.scratch next s.outbound with
    ⟨result, next', out⟩
  simp only [stepResponse, hencode] at hstep
  cases result with
  | error fault =>
      rw [run_of_error hstep]
      exact .inl rfl
  | ok complete =>
      by_cases hempty : out.data.isEmpty = true
      · simp only [if_pos hempty] at hstep
        cases complete with
        | true =>
            rw [run_of_ok hstep]
            exact .inl rfl
        | false =>
            rw [run_of_error hstep]
            exact .inl rfl
      · simp only [if_neg hempty] at hstep
        rcases hsend : Platform.send connection out.data board.world with ⟨taken, world⟩
        rw [hsend] at hstep
        cases taken with
        | true =>
            rw [run_of_ok hstep]
            exact .inr ⟨rfl, hrecorded.symm⟩
        | false =>
            rw [run_of_error hstep]
            exact .inl rfl

/-- Running a session that has recorded a signal leaves the signal as it is, or ends the conversation. -/
theorem endsOrRetains_run (hrecorded : s.recorded? = some count) (board : Board ω) :
    s.EndsOrRetains (s.run board).2.1 := by
  obtain ⟨limits, inbound, outbound, scratch, conversation⟩ := s
  rcases conversation with _ | ⟨connection, reading | request | ⟨reply, next, awaiting⟩⟩
  · simp [recorded?] at hrecorded
  · simp [recorded?] at hrecorded
  · cases request with
    | send frequency => simp [recorded?] at hrecorded
    | config name ssid password => simp [recorded?] at hrecorded
    | receive report =>
        cases report with
        | none => simp [recorded?] at hrecorded
        | some report =>
            obtain rfl : report.count = count := by simpa [recorded?] using hrecorded
            exact endsOrRetains_stepResponse rfl rfl
  · cases reply with
    | sent => simp [recorded?] at hrecorded
    | configured name ssid password => simp [recorded?] at hrecorded
    | captured other =>
        obtain rfl : other = count := by simpa [recorded?] using hrecorded
        cases awaiting with
        | true => exact endsOrRetains_of_eq rfl
        | false => exact endsOrRetains_stepResponse rfl rfl

theorem endsOrRetains_sent (hrecorded : s.recorded? = some count) (board : Board ω) :
    s.EndsOrRetains (s.sent board).2.1 := by
  cases hawaits : s.awaitsConfirmation with
  | false =>
      rw [sent_of_not_awaiting hawaits]
      exact endsOrRetains_of_eq rfl
  | true =>
      obtain ⟨limits, inbound, outbound, scratch, conversation⟩ := s
      rcases conversation with _ | ⟨connection, reading | request | ⟨reply, next, _ | _⟩⟩
      · simp [awaitsConfirmation] at hawaits
      · simp [awaitsConfirmation] at hawaits
      · simp [awaitsConfirmation] at hawaits
      · simp [awaitsConfirmation] at hawaits
      · have hconfirmed : recorded? ⟨limits, inbound, outbound, scratch,
            some ⟨connection, .response reply next false⟩⟩ =
              recorded? ⟨limits, inbound, outbound, scratch,
                some ⟨connection, .response reply next true⟩⟩ := by
          cases reply with
          | _ => rfl
        rcases endsOrRetains_run (hconfirmed.trans hrecorded) board with hnone | hretains
        · exact .inl hnone
        · exact .inr ⟨hretains.scratch_eq, hretains.recorded?_eq.trans hconfirmed⟩

end Session

namespace Device

variable {ω : Type}

namespace View.Effect

variable {v : View (Traced ω)} {op : Operation ω} {entries : List Entry} {s : Session.View}

/-- Only a session that is run takes a pin, and interrupts are enabled by nothing but the last call that arms a
capture. -/
theorem still_or_pending (h : v.Effect op entries s) :
    (∀ entry ∈ entries, entry.call.Still) ∨
      v.pending = true ∧ ((∀ entry ∈ entries, entry.call ≠ .enableInterrupts) ∨
        entries.map (·.call) = [.input v.board.receivePin, .disableInterrupts,
          .clearEdge v.board.receivePin, .attachEdge v.board.receivePin, .enableInterrupts]) := by
  cases h with
  | stays hidle hminor => exact .inl fun entry hentry => Call.still_of_minor (hminor entry hentry)
  | recorded hv hminor => exact .inl fun entry hentry => Call.still_of_minor (hminor entry hentry)
  | waits hv hpending hcalls => exact .inr ⟨hpending, .inr hcalls⟩
  | replied hspeaks hsome hlength =>
      cases hspeaks with
      | first hv hpending hdrives =>
          refine .inr ⟨hpending, .inl fun entry hentry => ?_⟩
          rcases List.mem_append.mp hentry with hentry | hentry
          · exact Call.ne_enableInterrupts_of_drives (hdrives entry hentry)
          · simp [List.mem_singleton.mp hentry]
      | next hv => exact .inl (by simp [Call.Still, Call.TakesPin])
  | cut hspeaks hsome hlength =>
      cases hspeaks with
      | first hv hpending hdrives =>
          refine .inr ⟨hpending, .inl fun entry hentry => ?_⟩
          rcases List.mem_append.mp hentry with hentry | hentry
          · exact Call.ne_enableInterrupts_of_drives (hdrives entry hentry)
          · intro henable
            have hcall := List.mem_map_of_mem (f := fun entry : Entry => entry.call) hentry
            simp [henable] at hcall
      | next hv => exact .inl (by simp [Call.Still, Call.TakesPin])
  | finished hv htold =>
      refine .inl fun entry hentry => ?_
      rcases List.mem_append.mp hentry with hentry | hentry
      · obtain ⟨name, ssid, password, hconfigured⟩ := htold entry hentry
        rw [hconfigured]
        exact Call.still_of_minor trivial
      · simp only [List.mem_cons, List.not_mem_nil, or_false] at hentry
        rcases hentry with rfl | rfl
        · exact ⟨id, by simp⟩
        · exact Call.still_of_minor trivial
  | _ => exact .inl (by simp [Call.Still, Call.TakesPin])

end View.Effect

variable [Platform ω] {d : Device (Traced ω)} {v : View (Traced ω)} {config : Config}

omit [Platform ω] in
theorem Follows.interruptsEnabled_eq (h : d.Follows v) :
    d.board.world.interruptsEnabled = d.board.station.armed := by
  rw [h.shows.board_eq]
  exact h.keeps.board_keeps.interrupts_eq

omit [Platform ω] in
theorem Follows.armed_of_pending (h : d.Follows v) (hpending : v.pending = true) :
    d.board.station.armed = false := by
  have hwaits := h.keeps.waits
  rw [hpending, ← h.shows.board_eq] at hwaits
  exact hwaits.eq_process_of_pending.1

theorem Follows.armed_of_takesPin (h : d.Follows v) {op : Operation ω} {entry : Entry}
    (hentry : entry ∈ d.added op) (hpin : entry.call.TakesPin) : d.board.station.armed = false := by
  rcases (h.effect op).2.still_or_pending with hstill | ⟨hpending, -⟩
  · exact absurd hpin (hstill entry hentry).1
  · exact h.armed_of_pending hpending

/-- Within an operation, too, no pin is taken once interrupts are enabled. -/
theorem Follows.foldl_switch_added (h : d.Follows v) {op : Operation ω} {before after : List Call}
    {call : Call} (hcalls : (d.added op).map (·.call) = before ++ call :: after)
    (hpin : call.TakesPin) :
    before.foldl Call.switch d.board.world.interruptsEnabled = false := by
  have hmem : call ∈ (d.added op).map (·.call) := by simp [hcalls]
  obtain ⟨entry, hentry, rfl⟩ := List.mem_map.mp hmem
  rw [h.interruptsEnabled_eq, h.armed_of_takesPin hentry hpin]
  rcases (h.effect op).2.still_or_pending with hstill | ⟨-, hnever | harm⟩
  · exact absurd hpin (hstill entry hentry).1
  · apply foldl_switch_eq_false
    intro other hother
    have hmem' : other ∈ (d.added op).map (·.call) := by
      rw [hcalls]
      exact List.mem_append_left _ hother
    obtain ⟨entry', hentry', rfl⟩ := List.mem_map.mp hmem'
    exact hnever entry' hentry'
  · -- of the calls that arm a capture only the first one takes a pin
    rw [hcalls] at harm
    cases before with
    | nil => rfl
    | cons first before =>
        have hlate : entry.call ∈ [Call.disableInterrupts, .clearEdge v.board.receivePin,
            .attachEdge v.board.receivePin, .enableInterrupts] := by
          rw [← (List.cons.inj harm).2]
          exact List.mem_append_right _ List.mem_cons_self
        simp only [List.mem_cons, List.not_mem_nil, or_false] at hlate
        rcases hlate with hcall | hcall | hcall | hcall
        all_goals
          rw [hcall] at hpin
          exact absurd hpin id

theorem Reachable.arbitrated (h : Reachable config d) : d.board.world.Arbitrated := by
  induction h with
  | new hnew =>
      intro before call after hcalls
      rw [(Follows.new hnew).shows.board_eq] at hcalls
      simp [Board.new, Traced.calls] at hcalls
  | @perform d h op ih =>
      obtain ⟨v, hfollows, -⟩ := h.exists_follows
      exact Traced.arbitrated_of_history_eq ih (hfollows.effect op).1 fun before call after =>
        hfollows.foldl_switch_added

theorem Follows.exists_process_of_capture (h : d.Follows v) {report : Station.Report}
    (hcapture : (d.board.capture d.session.scratch).1 = some report) :
    ∃ connection, d.session.conversation = some ⟨connection, .process (.receive none)⟩ ∧
      (d.handle .edge).session.conversation =
        some ⟨connection, .process (.receive (some report))⟩ := by
  have harmed : d.board.station.armed = true := by
    cases harmed : d.board.station.armed with
    | true => rfl
    | false => simp [Board.capture_of_not_armed harmed] at hcapture
  have hwaits := h.keeps.waits
  rw [← h.shows.board_eq] at hwaits
  obtain ⟨-, -, connection, hv⟩ := hwaits.eq_process_of_armed harmed
  have hagrees := h.shows.session_shows.agrees
  rw [hv] at hagrees
  obtain ⟨hconversation, -⟩ := hagrees
  refine ⟨connection, hconversation, ?_⟩
  obtain ⟨config, ⟨limits, inbound, outbound, scratch, conversation⟩, board, running, pending⟩ := d
  dsimp only at hconversation hcapture
  subst hconversation
  rcases hall : board.capture scratch with ⟨got, board', store⟩
  rw [hall] at hcapture
  dsimp only at hcapture
  subst hcapture
  simp only [Device.handle, resume, Session.edge, hall]

omit [Platform ω] in
/-- The scratch store holds as many pulses as were recorded, and has room for them. -/
theorem Follows.supplied_of_recorded (h : d.Follows v) {count : Nat}
    (hrecorded : d.session.recorded? = some count) :
    Session.View.Supplied v.config d.session.scratch.filled (.captured count) := by
  have hagrees := h.shows.session_shows.agrees
  have hsound := h.shows.session_shows.sound
  rw [Session.recorded?] at hrecorded
  cases hv : v.session with
  | ready =>
      rw [hv] at hagrees
      simp [hagrees.1] at hrecorded
  | request connection received =>
      rw [hv] at hagrees
      obtain ⟨reading, hconversation, -⟩ := hagrees
      simp [hconversation] at hrecorded
  | process connection request kept =>
      rw [hv] at hagrees hsound
      obtain ⟨hconversation, rfl, -⟩ := hagrees
      rw [hconversation] at hrecorded
      cases request with
      | send frequency => simp at hrecorded
      | config name ssid password => simp at hrecorded
      | receive report =>
          cases report with
          | none => simp at hrecorded
          | some report =>
              obtain rfl : report.count = count := by simpa using hrecorded
              exact hsound
  | response connection reply kept sent =>
      rw [hv] at hagrees hsound
      obtain ⟨next, hconversation, rfl, -⟩ := hagrees
      rw [hconversation] at hrecorded
      cases reply with
      | sent => simp at hrecorded
      | configured name ssid password => simp at hrecorded
      | captured other =>
          obtain rfl : other = count := by simpa using hrecorded
          exact hsound.1

/-- Nothing is recorded over what was recorded. -/
theorem Follows.armed_of_recorded (h : d.Follows v) {count : Nat}
    (hrecorded : d.session.recorded? = some count) : d.board.station.armed = false := by
  cases harmed : d.board.station.armed with
  | false => rfl
  | true =>
      obtain ⟨report, hcapture, -⟩ := Board.capture_of_armed harmed d.session.scratch
      obtain ⟨connection, hconversation, -⟩ := h.exists_process_of_capture hcapture
      simp [Session.recorded?, hconversation] at hrecorded

theorem Follows.endsOrRetains_handle (h : d.Follows v) {count : Nat}
    (hrecorded : d.session.recorded? = some count) (event : Event) :
    d.session.EndsOrRetains (d.handle event).session := by
  cases event with
  | connect connection =>
      have hattach : d.session.attach connection = (.error .busy, d.session) := by
        rw [Session.attach, if_pos (Session.isAttached_of_recorded hrecorded)]
      simp only [Device.handle, Device.connect, hattach]
      split
      · exact Session.endsOrRetains_of_eq rfl
      · exact Session.endsOrRetains_of_eq rfl
  | receive connection data =>
      simp only [Device.handle]
      split
      · have hlabel := Session.label_ne_of_recorded hrecorded
        rw [resume_of_blocked (d.session.receive_of_label_ne hlabel data d.board)]
        exact Session.endsOrRetains_of_eq rfl
      · exact Session.endsOrRetains_of_eq rfl
  | sent connection =>
      simp only [Device.handle]
      split
      · exact Session.endsOrRetains_sent hrecorded d.board
      · exact Session.endsOrRetains_of_eq rfl
  | disconnect connection =>
      simp only [Device.handle]
      split
      · exact .inl rfl
      · exact Session.endsOrRetains_of_eq rfl
  | edge =>
      simp only [Device.handle]
      rw [resume_of_blocked (d.session.edge_of_not_armed (h.armed_of_recorded hrecorded))]
      exact Session.endsOrRetains_of_eq rfl
  | timer => exact Session.endsOrRetains_of_eq rfl

/-- What was recorded stays as it is, whatever happens, until the conversation ends. -/
theorem Follows.endsOrRetains_perform (h : d.Follows v) {count : Nat}
    (hrecorded : d.session.recorded? = some count) (op : Operation ω) :
    d.session.EndsOrRetains (d.perform op).2.session := by
  cases op with
  | setListener => exact Session.endsOrRetains_of_eq rfl
  | setName name => exact Session.endsOrRetains_of_eq rfl
  | generateName chip => exact Session.endsOrRetains_of_eq rfl
  | surroundings f => exact Session.endsOrRetains_of_eq rfl
  | start =>
      simp only [Device.perform, Device.start]
      split
      · exact Session.endsOrRetains_of_eq rfl
      · split
        · exact Session.endsOrRetains_of_eq rfl
        · exact Session.endsOrRetains_of_eq rfl
  | stop =>
      simp only [Device.perform, Device.stop, Session.isAttached_of_recorded hrecorded, if_true]
      split
      · exact .inl rfl
      · exact Session.endsOrRetains_of_eq rfl
  | runPending =>
      simp only [Device.perform, Device.runPending]
      split
      · exact Session.endsOrRetains_run hrecorded d.board
      · exact Session.endsOrRetains_of_eq rfl
  | handle event => exact h.endsOrRetains_handle hrecorded event

theorem Follows.retains_run (h : d.Follows v) {count : Nat}
    (hrecorded : d.session.recorded? = some count) {connection : Connection}
    {ops : List (Operation ω)} (hlasts : d.Lasts connection ops) :
    d.session.Retains (d.run ops).2.session := by
  induction ops generalizing d v with
  | nil => exact .refl d.session
  | cons op ops ih =>
      have hnext := connection?_of_lasts hlasts.2
      rcases h.endsOrRetains_perform hrecorded op with hnone | hretains
      · simp [hnone] at hnext
      · exact hretains.trans (ih (h.perform op).2 (hretains.recorded?_eq.trans hrecorded) hlasts.2)

/-- Pins are taken only while no capture is armed, and none is taken while interrupts are enabled, which they
are exactly while one is armed. A capture that comes to its end is recorded for the request of a conversation
that waits for one. Of whatever was recorded the scratch store holds the pulses, and it stays as it is until the
conversation ends. -/
theorem Reachable.arbitration (h : Reachable config d) :
    d.board.world.Arbitrated ∧
    d.board.world.interruptsEnabled = d.board.station.armed ∧
    (∀ op, ∀ entry ∈ d.added op, entry.call.TakesPin → d.board.station.armed = false) ∧
    (∀ report, (d.board.capture d.session.scratch).1 = some report →
      ∃ connection, d.session.conversation = some ⟨connection, .process (.receive none)⟩ ∧
        (d.handle .edge).session.conversation =
          some ⟨connection, .process (.receive (some report))⟩) ∧
    ∀ count, d.session.recorded? = some count →
      count * config.pulseWidth.bytes = d.session.scratch.filled.length ∧
        d.session.scratch.filled.length ≤ config.scratchLength ∧
        ∀ connection ops, d.Lasts connection ops →
          (d.run ops).2.session.scratch = d.session.scratch ∧
            (d.run ops).2.session.recorded? = some count := by
  have harbitrated := h.arbitrated
  obtain ⟨v, hfollows, rfl⟩ := h.exists_follows
  refine ⟨harbitrated, hfollows.interruptsEnabled_eq, ?_, ?_, ?_⟩
  · exact fun op entry hentry => hfollows.armed_of_takesPin hentry
  · exact fun report => hfollows.exists_process_of_capture
  · intro count hrecorded
    obtain ⟨hcount, hroom⟩ := hfollows.supplied_of_recorded hrecorded
    refine ⟨hcount, hroom, fun connection ops hlasts => ?_⟩
    have hretains := hfollows.retains_run hrecorded hlasts
    exact ⟨hretains.scratch_eq, hretains.recorded?_eq.trans hrecorded⟩

/-- A signal of two pulses is recorded for a request. -/
theorem arbitration_receiveRequest :
    let config : Config := { signalTimeout := 12, pulseTimeout := 4 }
    let ops : List (Operation Bench) :=
      [.start, .handle (.connect 7), .handle (.receive 7 [2, 0, 0]), .runPending,
        .surroundings fun b => b.schedule [2, 3] 0, .handle .edge]
    let d : Device (Traced Bench) := ((fresh config ⟨{}, []⟩).run ops).2
    d.session.recorded? = some 2 ∧ d.session.scratch.filled = [2, 0, 3, 0] ∧
      d.board.world.Arbitrated ∧
      d.board.world.interruptsEnabled = d.board.station.armed ∧
      (∀ op, ∀ entry ∈ d.added op, entry.call.TakesPin → d.board.station.armed = false) ∧
      (∀ report, (d.board.capture d.session.scratch).1 = some report →
        ∃ connection, d.session.conversation = some ⟨connection, .process (.receive none)⟩ ∧
          (d.handle .edge).session.conversation =
            some ⟨connection, .process (.receive (some report))⟩) ∧
      ∀ count, d.session.recorded? = some count →
        count * config.pulseWidth.bytes = d.session.scratch.filled.length ∧
          d.session.scratch.filled.length ≤ config.scratchLength ∧
          ∀ connection ops, d.Lasts connection ops →
            (d.run ops).2.session.scratch = d.session.scratch ∧
              (d.run ops).2.session.recorded? = some count := by
  intro config ops d
  have hnew : Reachable config (fresh config ⟨{}, []⟩ : Device (Traced Bench)) :=
    reachable_fresh rfl _
  have hd : Reachable config d :=
    (((((hnew.perform _).perform _).perform _).perform _).perform _).perform _
  exact ⟨by decide +kernel, by decide +kernel, hd.arbitration⟩

end Device

end Infrared
