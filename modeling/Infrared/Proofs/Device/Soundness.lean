import Infrared.Proofs.Device.Advertisement
import Infrared.Proofs.Session.Soundness

namespace Infrared

variable {ω : Type}

theorem Beacon.pack_eq_ok {b : Beacon} {servicePort : UInt16} {name : List UInt8}
    (h : (b.pack servicePort name).2.payload.data ≠ []) : (b.pack servicePort name).1 = .ok () := by
  simp only [pack] at h ⊢
  split at h
  · split at h
    · rename_i hfits _ _ hput
      rw [if_pos hfits]
    · exact absurd (Buffer.filled_reset _) h
  · exact absurd (Buffer.filled_reset _) h

/-- Whether there is room for a name in the slot and in the beacon. -/
structure Board.Admits (b : Board ω) (name : List UInt8) : Prop where
  slot : (b.name.reset.extend name).1 = .ok ()
  beacon : (b.rename name).1 = .ok ()

theorem Board.admits_of_length_le {config : Config} {b : Board ω} (hfittings : b.fittings = .of config)
    (hvalid : config.Valid) {name : List UInt8} (h : name.length ≤ config.nameLengthMax) :
    b.Admits name := by
  obtain ⟨-, hpayload⟩ := rename_of_length_le hfittings hvalid h
  have hcapacity : b.name.capacity = config.nameLengthMax :=
    congrArg Fittings.nameCapacity hfittings
  constructor
  · have hleft : name.length ≤ b.name.reset.left := by rw [Buffer.left_reset, hcapacity]; exact h
    rw [Buffer.extend_of_le _ hleft]
  · apply Beacon.pack_eq_ok
    rw [show (Beacon.pack _ _ _).2.payload.data = _ from hpayload]
    exact Beacon.datagram_ne_nil _ _ _

/-- Where the name of the configuration is that a session has accepted. -/
def Session.acceptedName? (s : Session) : Option Span :=
  match s.conversation with
  | some ⟨_, .process (.config name _ _)⟩ | some ⟨_, .response (.configured name _ _) _ _⟩ => some name
  | _ => none

theorem Session.Shows.exists_staged? {config : Config} {s : Session} {v : View}
    (h : s.Shows config v) {name : Span} (hname : s.acceptedName? = some name) :
    ∃ connection a, v.staged? = some (connection, a) ∧ name.read? s.scratch = some a.name := by
  have hagrees := h.agrees
  cases v with
  | ready => simp [acceptedName?, hagrees.1] at hname
  | request connection received =>
      obtain ⟨reading, hconversation, -⟩ := hagrees
      simp [acceptedName?, hconversation] at hname
  | process connection request kept =>
      obtain ⟨hconversation, rfl, -⟩ := hagrees
      cases request with
      | config span ssid password =>
          simp only [acceptedName?, hconversation, Option.some.injEq] at hname
          subst hname
          have hsupplied : View.Supplied config s.scratch.filled (.configured span ssid password) :=
            h.sound
          exact ⟨connection, _, rfl, read?_eq_of_le hsupplied.1⟩
      | _ => simp [acceptedName?, hconversation] at hname
  | response connection reply kept sent =>
      obtain ⟨next, hconversation, rfl, -⟩ := hagrees
      cases reply with
      | configured span ssid password =>
          simp only [acceptedName?, hconversation, Option.some.injEq] at hname
          subst hname
          exact ⟨connection, _, rfl, read?_eq_of_le h.sound.1.1⟩
      | _ => simp [acceptedName?, hconversation] at hname

namespace Device

variable [Platform ω] {config : Config} {d : Device (Traced ω)} {v : View (Traced ω)}
  {connection : Connection}

/-- What an operation takes for granted. -/
def accesses (d : Device (Traced ω)) : Operation ω → List Access
  | .setName name => d.board.setNameAccesses name
  | .generateName chip => d.board.generateNameAccesses chip
  | .start => if d.running then [] else d.board.packAccesses
  | .runPending => if d.pending then d.session.runAccesses d.board else []
  | .handle (.receive connection data) =>
    if d.isCurrent connection then d.session.receiveAccesses data d.board else []
  | .handle (.sent connection) =>
    if d.isCurrent connection then d.session.sentAccesses d.board else []
  | .handle .edge => d.session.edgeAccesses d.board
  | .handle .timer => [d.board.beacon.payload.buffer.filledAccess]
  | _ => []

/-- The fault for which the conversation ends in an operation. -/
def fault? (d : Device (Traced ω)) : Operation ω → Option Fault
  | .runPending => if d.pending then d.session.runFault? d.board else none
  | .handle (.receive connection data) =>
    if d.isCurrent connection then d.session.receiveFault? data d.board else none
  | .handle (.sent connection) => if d.isCurrent connection then d.session.sentFault? d.board else none
  | _ => none

theorem Follows.allInRange_accesses (h : d.Follows v) (op : Operation ω) :
    Access.AllInRange (d.accesses op) := by
  have hvalid := h.keeps.valid
  have hsession := h.shows.session_shows
  cases op with
  | setName name => exact d.board.allInRange_setNameAccesses name
  | generateName chip => exact d.board.allInRange_generateNameAccesses chip
  | start =>
      simp only [accesses]
      split
      · exact Access.allInRange_nil
      · exact d.board.allInRange_packAccesses
  | runPending =>
      simp only [accesses]
      split
      · exact hsession.allInRange_runAccesses hvalid d.board
      · exact Access.allInRange_nil
  | handle event =>
      cases event with
      | receive connection data =>
          simp only [accesses]
          split
          · exact hsession.allInRange_receiveAccesses hvalid data d.board
          · exact Access.allInRange_nil
      | sent connection =>
          simp only [accesses]
          split
          · exact hsession.allInRange_sentAccesses hvalid d.board
          · exact Access.allInRange_nil
      | edge =>
          have hholds := h.keeps.holds
          rw [← h.shows.board_eq] at hholds
          exact d.session.allInRange_edgeAccesses hholds
      | timer => exact Access.allInRange_cons.mpr ⟨Buffer.inRange_filledAccess _, Access.allInRange_nil⟩
      | connect connection => exact Access.allInRange_nil
      | disconnect connection => exact Access.allInRange_nil
  | setListener => exact Access.allInRange_nil
  | stop => exact Access.allInRange_nil
  | surroundings f => exact Access.allInRange_nil

theorem Follows.excused (h : d.Follows v) {op : Operation ω} {fault : Fault}
    (hfault : d.fault? op = some fault) :
    d.session.Excused d.board (d.perform op).2.board fault := by
  have hvalid := h.keeps.valid
  have hsession := h.shows.session_shows
  cases op with
  | runPending =>
      simp only [fault?] at hfault
      split at hfault
      · rename_i hpending
        have hexcused := hsession.excused_run hvalid hfault
        simp only [Device.perform, Device.runPending, hpending, if_true]
        exact hexcused
      · simp at hfault
  | handle event =>
      cases event with
      | receive connection data =>
          simp only [fault?] at hfault
          split at hfault
          · rename_i hcurrent
            have hexcused := hsession.excused_receive hvalid hfault
            simp only [Device.perform, Device.handle, hcurrent, if_true]
            exact hexcused
          · simp at hfault
      | sent connection =>
          simp only [fault?] at hfault
          split at hfault
          · rename_i hcurrent
            have hexcused := hsession.excused_sent hvalid hfault
            simp only [Device.perform, Device.handle, hcurrent, if_true]
            exact hexcused
          · simp at hfault
      | _ => simp [fault?] at hfault
  | _ => simp [fault?] at hfault

/-- A conversation whose request was accepted ends with its whole reply, or it is cut off. -/
theorem Follows.finished_or_cut (h : d.Follows v) {request : Request}
    (hd : d.session.conversation = some ⟨connection, .process request⟩) {ops : List (Operation ω)}
    (hlasts : d.Lasts connection ops) {op : Operation ω}
    (hop : ((d.run ops).2.perform op).2.session.connection? ≠ some connection) :
    (op = .stop ∨ op = .handle (.disconnect connection) ∨
      ∃ data, ((d.run ops).2.perform op).2.board.world.sendings =
        (d.run ops).2.board.world.sendings ++ [⟨connection, data, false⟩]) ∨
    ∃ answer, d.answerIn? ops = some answer ∧
      ((d.run ops).2.perform op).2.board.world.sendings =
        d.board.world.sendings ++ sendingsOf connection (pieces v.config answer) := by
  have hlast := (h.run ops).2
  have hnext := (hlast.perform op).2
  obtain ⟨hanswering, hanswer⟩ := h.answering_run (h.answering_of_process hd) hlasts
  rw [hnext.shows.session_shows.connection?_eq] at hop
  rw [hnext.shows.board_eq, hlast.shows.board_eq]
  have hturn := View.turn_perform hlast.keeps hlast.shows.session_shows.sound hanswering op
  rcases hturn.ended_of_connection? hop with hfinished | hcut
  · obtain ⟨answer, hsettled, hsendings, -⟩ := hfinished.exists_answer
    obtain ⟨calls, hcalls, hadds⟩ := hfinished.exists_calls
    have hsame := hadds.sendings_eq (Session.View.not_isSend_of_mem_configured hcalls)
    rw [v.config_run ops] at hsendings
    exact .inr ⟨answer, hanswer.symm.trans hsettled, hsame.trans hsendings⟩
  · exact .inl hcut

theorem Reachable.admits_accepted (h : Reachable config d) {name : Span}
    (hname : d.session.acceptedName? = some name) :
    ∃ text, name.read? d.session.scratch = some text ∧ d.board.Admits text := by
  obtain ⟨v, hfollows, rfl, hfittings, hstaged⟩ := h.exists_tracks
  obtain ⟨connection, a, hv, hread⟩ := hfollows.shows.session_shows.exists_staged? hname
  refine ⟨a.name, hread, ?_⟩
  rw [hfollows.shows.board_eq]
  exact Board.admits_of_length_le hfittings hfollows.keeps.valid (hstaged connection a hv).1

end Device

end Infrared
