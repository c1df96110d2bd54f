import Infrared.Proofs.Device.WaitState
import Infrared.Proofs.Machine.Soundness

namespace Infrared.CheckedDevice

open Device (Operation WaitState)

/-- What each way of waiting says of the flags of the machine. -/
def Waits {ω : Type} (m : CheckedDevice ω) : WaitState → Prop
  | .ready =>
    m.session.stage = .ready ∧ m.session.connection = none ∧ m.session.exchange = none ∧
      m.session.awaiting = false ∧ m.pending = false ∧ m.board.station.armed = false ∧
      m.session.inbound.cells.filled = some [] ∧ m.session.outbound.cells.filled = some [] ∧
      m.session.scratch.filled = some []
  | .request =>
    m.session.stage = .request ∧ m.session.connection ≠ none ∧ m.session.awaiting = false ∧
      m.pending = false ∧ m.board.station.armed = false ∧ m.session.inbound.cells.pending = some 0
  | .process =>
    m.session.stage = .process ∧ m.session.connection ≠ none ∧ m.session.awaiting = false ∧
      (m.pending = true ∧ m.board.station.armed = false ∨
        m.pending = false ∧ m.board.station.armed = true ∧
          ∃ e, m.session.exchange = some (.receive e) ∧ e.report = none)
  | .response =>
    m.session.stage = .response ∧ m.session.connection ≠ none ∧ m.session.awaiting = true ∧
      m.session.outbound.cells.filled = some [] ∧ m.pending = false ∧ m.board.station.armed = false

/-- The stage at which a machine waits so. -/
def stageOf : WaitState → Stage
  | .ready => .ready
  | .request => .request
  | .process => .process
  | .response => .response

theorem Waits.stage_eq {ω : Type} {m : CheckedDevice ω} {w : WaitState} (h : m.Waits w) :
    m.session.stage = stageOf w := by
  cases w <;> exact h.1

theorem stageOf_injective {w other : WaitState} (h : stageOf w = stageOf other) : w = other := by
  revert h
  cases w <;> cases other <;> decide

theorem Waits.unique {ω : Type} {m : CheckedDevice ω} {w other : WaitState} (h : m.Waits w)
    (hother : m.Waits other) : other = w :=
  stageOf_injective (hother.stage_eq.symm.trans h.stage_eq)

theorem Shows.waits {ω : Type} {m : CheckedDevice ω} {d : Device ω} (h : m.Shows d) {w : WaitState}
    (hw : w.Holds d) : m.Waits w := by
  have hagrees := h.session.agrees
  have hconnection := h.session.connection_eq
  have hpending := h.pending_eq
  have harmed : m.board.station.armed = d.board.station.armed := by
    rw [← h.board.station_eq]
    rfl
  cases w with
  | ready =>
      obtain ⟨hconversation, hrun, hquiet, hinbound, houtbound, hscratch, -⟩ := hw
      rw [hconversation] at hagrees
      obtain ⟨hstage, -, hexchange, -, hawaiting⟩ := hagrees
      refine ⟨hstage, ?_, hexchange, hawaiting, hpending.trans hrun, harmed.trans hquiet, ?_, ?_, ?_⟩
      · rw [hconnection, Session.connection?, hconversation]
        rfl
      · rw [h.session.inbound.filled_eq, hinbound]
      · rw [h.session.outbound.filled_eq, houtbound]
      · rw [h.session.scratch_eq, Buffer.filled_cells, hscratch]
  | request =>
      obtain ⟨connection, reading, hconversation, hinbound, hrun, hquiet, -⟩ := hw
      rw [hconversation] at hagrees
      obtain ⟨hstage, -, -, hawaiting⟩ := hagrees
      refine ⟨hstage, ?_, hawaiting, hpending.trans hrun, harmed.trans hquiet, ?_⟩
      · rw [h.session.connection_of hconversation]
        simp
      · rw [h.session.inbound.pending_eq, hinbound]
  | process =>
      obtain ⟨connection, demand, hconversation, -, hcases⟩ := hw
      rw [hconversation] at hagrees
      obtain ⟨hstage, ⟨e, hexchange, he⟩, -, hawaiting⟩ := hagrees
      refine ⟨hstage, ?_, hawaiting, ?_⟩
      · rw [h.session.connection_of hconversation]
        simp
      · rcases hcases with ⟨hrun, hquiet⟩ | ⟨hrun, hwaits, rfl⟩
        · exact .inl ⟨hpending.trans hrun, harmed.trans hquiet⟩
        · cases e with
          | receive e =>
              refine .inr ⟨hpending.trans hrun, harmed.trans hwaits, e, hexchange, ?_⟩
              exact congrArg ReceiveExchange.report he
          | _ => exact he.elim
  | response =>
      obtain ⟨connection, reply, next, awaiting, hconversation, hawaits, houtbound, hrun, hquiet⟩ := hw
      rw [Session.awaitsConfirmation, hconversation] at hawaits
      rw [hconversation] at hagrees
      obtain ⟨hstage, -, hawaiting⟩ := hagrees
      refine ⟨hstage, ?_, hawaiting.trans hawaits, ?_, hpending.trans hrun, harmed.trans hquiet⟩
      · rw [h.session.connection_of hconversation]
        simp
      · rw [h.session.outbound.filled_eq, houtbound]

variable {ω : Type} [Platform ω]

/-- Whatever was done to a device with a valid configuration, and whatever its platform answered, it waits in
exactly one way; interrupts are enabled while a capture is armed and never else, and only a running device has a
conversation. -/
theorem exists_waits {config : Config} (hvalid : config.validate = .ok ()) (world : ω)
    (ops : List (Operation ω)) :
    ∃ m, (fresh config ⟨world, []⟩).run ops = some (((Device.fresh config ⟨world, []⟩).run ops).1, m) ∧
      m.Shows ((Device.fresh config ⟨world, []⟩).run ops).2 ∧
      (∃ w, m.Waits w ∧ ∀ other, m.Waits other → other = w) ∧
      m.board.world.interruptsEnabled = m.board.station.armed ∧
      (m.session.connection ≠ none → m.running = true) := by
  have hfresh : Device.Reachable config (Device.fresh config ⟨world, []⟩ : Device (Traced ω)) :=
    Device.reachable_fresh hvalid world
  obtain ⟨v, hbegins, -⟩ := hfresh.exists_follows
  obtain ⟨m, hrun, hm, -⟩ := (shows_fresh config ⟨world, []⟩).run hbegins ops
  obtain ⟨⟨w, hw, -⟩, hinterrupts, hrunning⟩ := (hfresh.run ops).exists_waitState
  refine ⟨m, hrun, hm, ⟨w, hm.waits hw, fun _ => (hm.waits hw).unique⟩, ?_, ?_⟩
  · rw [hm.board.world_eq, hinterrupts, ← hm.board.station_eq]
    rfl
  · intro hattached
    rw [hm.running_eq]
    exact hrunning (hm.session.isAttached_iff.mpr hattached)

/-- A device that was asked to record a signal waits for it with its capture armed, and when it was recorded for the
confirmation of the first piece of the reply. -/
theorem exists_waits_receiveRequest :
    let config : Config := { sendBufferLength := 3, signalTimeout := 40, pulseTimeout := 20 }
    let ops : List (Operation Bench) :=
      [.start, .handle (.connect 7), .handle (.receive 7 [2, 0, 0]), .runPending]
    let more : List (Operation Bench) :=
      ops ++ [.surroundings fun b => b.schedule [10, 5, 7] 0, .handle .edge, .runPending]
    (∃ outcomes m, (fresh config ⟨{}, []⟩).run ops = some (outcomes, m) ∧
      m.session.connection = some 7 ∧ m.session.exchange = some (.receive {}) ∧
      m.Waits .process ∧ (∀ other, m.Waits other → other = .process) ∧
      m.board.station.armed = true ∧ m.board.world.interruptsEnabled = true ∧ m.running = true) ∧
    ∃ outcomes m, (fresh config ⟨{}, []⟩).run more = some (outcomes, m) ∧
      m.session.connection = some 7 ∧ m.session.response = .body ∧
      m.Waits .response ∧ (∀ other, m.Waits other → other = .response) ∧
      m.board.station.armed = false ∧ m.board.world.interruptsEnabled = false ∧ m.running = true := by
  intro config ops more
  have hvalid : config.validate = .ok () := rfl
  have hprocess : ((fresh config ⟨{}, []⟩).run ops).map (fun ran =>
      (ran.2.session.stage, ran.2.session.connection, ran.2.session.exchange, ran.2.board.station.armed)) =
      some (.process, some 7, some (.receive {}), true) := by
    decide +kernel
  have hresponse : ((fresh config ⟨{}, []⟩).run more).map (fun ran =>
      (ran.2.session.stage, ran.2.session.connection, ran.2.session.response, ran.2.board.station.armed)) =
      some (.response, some 7, .body, false) := by
    decide +kernel
  obtain ⟨m, hrun, -, ⟨w, hw, hunique⟩, hinterrupts, hrunning⟩ := exists_waits hvalid ({} : Bench) ops
  obtain ⟨n, hmore, -, ⟨u, hu, hsole⟩, hdisabled, hserves⟩ := exists_waits hvalid ({} : Bench) more
  rw [hrun] at hprocess
  rw [hmore] at hresponse
  simp only [Option.map_some, Option.some.injEq, Prod.mk.injEq] at hprocess hresponse
  obtain ⟨hstage, hconnection, hexchange, harmed⟩ := hprocess
  obtain ⟨hlater, hserved, hbody, hquiet⟩ := hresponse
  obtain rfl : w = .process := stageOf_injective (hw.stage_eq.symm.trans hstage)
  obtain rfl : u = .response := stageOf_injective (hu.stage_eq.symm.trans hlater)
  exact ⟨⟨_, m, hrun, hconnection, hexchange, hw, hunique, harmed, hinterrupts.trans harmed,
      hrunning (by simp [hconnection])⟩,
    _, n, hmore, hserved, hbody, hu, hsole, hquiet, hdisabled.trans hquiet, hserves (by simp [hserved])⟩

end Infrared.CheckedDevice
