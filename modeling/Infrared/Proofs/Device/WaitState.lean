import Infrared.Proofs.Device.Waiting

namespace Infrared

/-- Whether a session awaits the confirmation of a send. -/
def Session.awaitsConfirmation (s : Session) : Bool :=
  match s.conversation with
  | some ⟨_, .response _ _ awaiting⟩ => awaiting
  | _ => false

namespace Device

inductive WaitState where
  | ready
  | request
  | process
  | response
  deriving DecidableEq, Repr

/-- What each way of waiting says of a device. -/
def WaitState.Holds {ω : Type} (d : Device ω) : WaitState → Prop
  | ready =>
    d.session.conversation = none ∧ d.pending = false ∧ d.board.station.armed = false ∧
      d.session.inbound.data = [] ∧ d.session.outbound.data = [] ∧ d.session.scratch.filled = [] ∧
      d.session.awaitsConfirmation = false
  | request =>
    ∃ connection reading, d.session.conversation = some ⟨connection, .request reading⟩ ∧
      d.session.inbound.pending = 0 ∧ d.pending = false ∧ d.board.station.armed = false ∧
      d.session.awaitsConfirmation = false
  | process =>
    ∃ connection demand, d.session.conversation = some ⟨connection, .process demand⟩ ∧
      d.session.awaitsConfirmation = false ∧
      (d.pending = true ∧ d.board.station.armed = false ∨
        d.pending = false ∧ d.board.station.armed = true ∧ demand = .receive none)
  | response =>
    ∃ connection reply next awaiting,
      d.session.conversation = some ⟨connection, .response reply next awaiting⟩ ∧
        d.session.awaitsConfirmation = true ∧ d.session.outbound.data = [] ∧ d.pending = false ∧
        d.board.station.armed = false

def WaitState.ofConversation : Option Session.Conversation → WaitState
  | none => ready
  | some ⟨_, .request _⟩ => request
  | some ⟨_, .process _⟩ => process
  | some ⟨_, .response _ _ _⟩ => response

variable {ω : Type} {d : Device (Traced ω)} {v : View (Traced ω)}

theorem WaitState.eq_of_holds {d : Device ω} {w : WaitState} (h : w.Holds d) :
    w = ofConversation d.session.conversation := by
  cases w with
  | ready =>
      obtain ⟨hconversation, -⟩ := h
      rw [hconversation]
      rfl
  | request =>
      obtain ⟨connection, reading, hconversation, -⟩ := h
      rw [hconversation]
      rfl
  | process =>
      obtain ⟨connection, demand, hconversation, -⟩ := h
      rw [hconversation]
      rfl
  | response =>
      obtain ⟨connection, reply, next, awaiting, hconversation, -⟩ := h
      rw [hconversation]
      rfl

theorem Follows.exists_holds (h : d.Follows v) : ∃ w : WaitState, w.Holds d := by
  obtain ⟨⟨-, hboard, -, hpending, -, -, hdrained, hagrees⟩, -, -, hwaits, -⟩ := h
  rw [← hboard, ← hpending] at hwaits
  cases hv : v.session with
  | ready =>
      rw [hv] at hagrees hwaits
      obtain ⟨hconversation, -, hinbound, -, hscratch⟩ := hagrees
      refine ⟨.ready, hconversation, hwaits.1, hwaits.2, hinbound, hdrained, hscratch, ?_⟩
      rw [Session.awaitsConfirmation, hconversation]
  | request connection bytes =>
      rw [hv] at hagrees hwaits
      obtain ⟨reading, hconversation, hreading, -⟩ := hagrees
      have hinbound : d.session.inbound.pending = 0 := by
        have hlength := congrArg List.length (Request.Reading.unconsumed_of_shows hreading)
        rwa [Buffer.length_unconsumed] at hlength
      refine ⟨.request, connection, reading, hconversation, hinbound, hwaits.1, hwaits.2, ?_⟩
      rw [Session.awaitsConfirmation, hconversation]
  | process connection demand kept =>
      rw [hv] at hagrees hwaits
      obtain ⟨hconversation, -, -⟩ := hagrees
      refine ⟨.process, connection, demand, hconversation, ?_, ?_⟩
      · rw [Session.awaitsConfirmation, hconversation]
      · rcases hwaits with ⟨hrun, harmed⟩ | ⟨hrun, harmed, -, hdemand, -⟩
        · exact .inl ⟨hrun, harmed⟩
        · exact .inr ⟨hrun, harmed, hdemand⟩
  | response connection reply kept sent =>
      rw [hv] at hagrees hwaits
      obtain ⟨next, hconversation, -⟩ := hagrees
      refine ⟨.response, connection, reply, next, true, hconversation, ?_, hdrained, hwaits.1,
        hwaits.2⟩
      rw [Session.awaitsConfirmation, hconversation]

variable [Platform ω]

/-- Whatever was done to a device, and whatever its platform answered, it waits in exactly one way; interrupts
are enabled while a capture is armed and never else, and only a running device has a conversation. -/
theorem Reachable.exists_waitState {config : Config} (h : Reachable config d) :
    (∃ w : WaitState, w.Holds d ∧ ∀ other : WaitState, other.Holds d → other = w) ∧
      d.board.world.interruptsEnabled = d.board.station.armed ∧
      (d.session.isAttached = true → d.running = true) := by
  obtain ⟨v, hfollows, -⟩ := h.exists_follows
  refine ⟨?_, ?_, ?_⟩
  · obtain ⟨w, hw⟩ := hfollows.exists_holds
    refine ⟨w, hw, fun other hother => ?_⟩
    rw [WaitState.eq_of_holds hw, WaitState.eq_of_holds hother]
  · rw [hfollows.shows.board_eq]
    exact hfollows.keeps.board_keeps.interrupts_eq
  · intro hattached
    rw [hfollows.shows.running_eq]
    apply hfollows.keeps.running_of_ne_ready
    intro hready
    have hagrees := hfollows.shows.session_shows.agrees
    rw [hready] at hagrees
    rw [Session.isAttached, hagrees.1] at hattached
    simp at hattached

end Device

end Infrared
