import Infrared.Bench
import Infrared.Proofs.History
import Infrared.Proofs.Request.Standstill
import Infrared.Session

namespace Infrared.Session

open Request (Intake)

/-- Something that a session is told without there being an event. -/
inductive Prompt where
  | run
  /-- Bytes arrived, but none at all. -/
  | receiveNothing
  deriving DecidableEq, Repr

/-- Whether the second session is the first one but for the room in its stream for bytes to come. -/
def SameButRoom (s t : Session) : Prop :=
  ∃ buffer : Buffer, buffer.unconsumed = s.inbound.buffer.unconsumed ∧
    buffer.capacity = s.inbound.capacity ∧ t = { s with inbound := { s.inbound with buffer := buffer } }

theorem SameButRoom.refl (s : Session) : s.SameButRoom s :=
  ⟨s.inbound.buffer, rfl, rfl, rfl⟩

theorem SameButRoom.trans {s t u : Session} (h : s.SameButRoom t) (h' : t.SameButRoom u) :
    s.SameButRoom u := by
  obtain ⟨first, hfirst, hcapacity, rfl⟩ := h
  obtain ⟨second, hsecond, hcapacity', rfl⟩ := h'
  exact ⟨second, hsecond.trans hfirst, hcapacity'.trans hcapacity, rfl⟩

variable {ω : Type} [Platform ω]

def prompt (s : Session) (board : Board ω) : Prompt → Progress × Session × Board ω
  | .run => s.run board
  | .receiveNothing => s.receive [] board

/-- What a session says to one prompt after the other, and what they leave. -/
def promptAll (s : Session) (board : Board ω) : List Prompt → List Progress × Session × Board ω
  | [] => ([], s, board)
  | first :: prompts =>
    match s.prompt board first with
    | (progress, s, board) =>
      match s.promptAll board prompts with
      | (rest, s, board) => (progress :: rest, s, board)

/-- Whether there is something that a session has to wait for. -/
def Waits (s : Session) (board : Board ω) : Prop :=
  match s.conversation with
  | none => True
  | some ⟨_, .request reading⟩ =>
    Intake.Rests (reading.resume s.limits) (.ok (.inl reading)) ⟨s.inbound, s.scratch⟩
  | some ⟨_, .process (.receive none)⟩ => board.station.armed = true
  | some ⟨_, .process _⟩ => False
  | some ⟨_, .response _ _ awaiting⟩ => awaiting = true

variable {s t : Session} {board after : Board ω}

theorem step_of_run_blocked (h : s.run board = (.blocked, t, after)) :
    s.step board = (.ok .blocked, t, after) := by
  rw [run] at h
  split at h
  · rename_i hstep
    obtain ⟨rfl, rfl, rfl⟩ := h
    exact hstep
  · simp at h

omit [Platform ω] in
theorem waits_of_stepRequest {connection : Connection} {reading : Request.Reading}
    (h : s.stepRequest connection reading board = (.ok .blocked, t, after)) : t.Waits after := by
  simp only [stepRequest] at h
  split at h
  · rename_i hresume
    obtain ⟨-, rfl, -⟩ := h
    exact Request.Reading.rests_resume hresume
  · simp at h
  · simp at h

theorem waits_of_stepResponse {connection : Connection} {reply : Reply} {next : Nat}
    (h : s.stepResponse connection reply next board = (.ok .blocked, t, after)) : t.Waits after := by
  simp only [stepResponse] at h
  split at h
  · split at h
    · split at h
      · simp at h
      · simp at h
    · split at h
      · obtain ⟨-, rfl, -⟩ := h
        rfl
      · simp at h
  · simp at h

theorem waits_of_stepProcess {connection : Connection} {request : Request}
    (hs : s.conversation = some ⟨connection, .process request⟩)
    (h : s.stepProcess connection request board = (.ok .blocked, t, after)) : t.Waits after := by
  cases request with
  | send frequency => exact waits_of_stepResponse h
  | receive report =>
      cases report with
      | some report => exact waits_of_stepResponse h
      | none =>
          simp only [stepProcess] at h
          split at h
          · rename_i harmed
            obtain ⟨-, rfl, rfl⟩ := h
            simp only [Waits, hs]
            exact harmed
          · obtain ⟨-, rfl, rfl⟩ := h
            simp only [Waits, hs]
            rfl
  | config name ssid password => exact waits_of_stepResponse h

theorem waits_of_run_blocked (h : s.run board = (.blocked, t, after)) : t.Waits after := by
  have hstep := step_of_run_blocked h
  rw [step] at hstep
  split at hstep
  · rename_i hs
    obtain ⟨-, rfl, rfl⟩ := hstep
    simp only [Waits, hs]
  · exact waits_of_stepRequest hstep
  · rename_i hs
    exact waits_of_stepProcess hs hstep
  · rename_i hs
    obtain ⟨-, rfl, rfl⟩ := hstep
    simp only [Waits, hs]
  · exact waits_of_stepResponse hstep

theorem Waits.run_eq (h : s.Waits board) : s.run board = (.blocked, s, board) := by
  obtain ⟨limits, inbound, outbound, scratch, conversation⟩ := s
  rw [run]
  rcases conversation with _ | ⟨connection, reading | request | ⟨reply, next, awaiting⟩⟩
  · rfl
  · have hrests : Intake.Rests (reading.resume limits) (.ok (.inl reading)) ⟨inbound, scratch⟩ := h
    simp only [step, stepRequest, hrests.eq]
  · cases request with
    | send frequency => exact absurd h id
    | receive report =>
        cases report with
        | some report => exact absurd h id
        | none =>
            have harmed : board.station.armed = true := h
            simp only [step, stepProcess, harmed, if_true]
    | config name ssid password => exact absurd h id
  · have hawaiting : awaiting = true := h
    subst hawaiting
    rfl

/-- Told that no bytes arrived, a session at most makes room for some. -/
theorem Waits.receive_eq (h : s.Waits board) :
    ∃ t, s.receive [] board = (.blocked, t, board) ∧ s.SameButRoom t ∧ t.Waits board := by
  obtain ⟨limits, inbound, outbound, scratch, conversation⟩ := s
  rcases conversation with _ | ⟨connection, reading | request | ⟨reply, next, awaiting⟩⟩
  · exact ⟨_, rfl, .refl _, h⟩
  · have hrests : Intake.Rests (reading.resume limits) (.ok (.inl reading)) ⟨inbound, scratch⟩ := h
    have hroom : ([] : List UInt8).length + inbound.pending ≤ inbound.capacity := by
      rw [hrests.pending_eq]
      exact Nat.zero_le _
    obtain ⟨buffer, hfeed, hcapacity, hunconsumed⟩ := FieldStream.exists_feed_of_le hrests.side_eq hroom
    rw [List.append_nil] at hunconsumed
    have hpending : buffer.pending = 0 := by
      rw [← Buffer.length_unconsumed, hunconsumed, Buffer.length_unconsumed]
      exact hrests.pending_eq
    have hwaits : Waits ⟨limits, { inbound with buffer := buffer }, outbound, scratch,
        some ⟨connection, .request reading⟩⟩ board := hrests.withBuffer hpending
    refine ⟨_, ?_, ⟨buffer, hunconsumed, hcapacity, rfl⟩, hwaits⟩
    simp only [receive, hfeed, hwaits.run_eq]
  · exact ⟨_, rfl, .refl _, h⟩
  · exact ⟨_, rfl, .refl _, h⟩

theorem Waits.prompt_eq (h : s.Waits board) (prompt : Prompt) :
    ∃ t, s.prompt board prompt = (.blocked, t, board) ∧ s.SameButRoom t ∧ t.Waits board := by
  cases prompt with
  | run => exact ⟨s, h.run_eq, .refl s, h⟩
  | receiveNothing => exact h.receive_eq

theorem Waits.promptAll_eq (h : s.Waits board) (prompts : List Prompt) :
    ∃ t, s.promptAll board prompts = (List.replicate prompts.length .blocked, t, board) ∧
      s.SameButRoom t := by
  induction prompts generalizing s with
  | nil => exact ⟨s, rfl, .refl s⟩
  | cons first prompts ih =>
      obtain ⟨t, hprompt, hsame, hwaits⟩ := h.prompt_eq first
      obtain ⟨u, hall, hsame'⟩ := ih hwaits
      refine ⟨u, ?_, hsame.trans hsame'⟩
      simp only [promptAll, hprompt, hall]
      rfl

/-- A session that is blocked on a board is blocked on it however often it is run again or told of bytes without
there being any. The board and its surroundings are left as they are, so that no call is made, and so is all of the
session but the room for bytes to come: its conversation with all that was read, sent and recorded, the field that
was moved in part, and the scratch store. -/
theorem promptAll_eq_of_blocked (h : s.run board = (.blocked, t, after)) (prompts : List Prompt) :
    ∃ u, t.promptAll after prompts = (List.replicate prompts.length .blocked, u, after) ∧
      t.SameButRoom u :=
  (waits_of_run_blocked h).promptAll_eq prompts

/-- A request whose frequency has arrived in part. -/
theorem promptAll_eq_of_partial_frequency :
    let board : Board (Traced Bench) := Board.new {} ⟨{}, []⟩
    let s := (((Session.new {}).attach 7).2.receive [0, 0, 12, 1, 2] board).2.1
    (s.run board).1 = .blocked ∧
      s.conversation = some ⟨7, .request (.body 12 2 .frequency)⟩ ∧
      ∃ u, (s.run board).2.1.promptAll (s.run board).2.2 [.run, .receiveNothing, .run] =
          ([.blocked, .blocked, .blocked], u, (s.run board).2.2) ∧
        (s.run board).2.1.SameButRoom u := by
  intro board s
  have hblocked : (s.run board).1 = .blocked := by decide +kernel
  exact ⟨hblocked, by decide +kernel,
    promptAll_eq_of_blocked (Prod.ext hblocked rfl) [.run, .receiveNothing, .run]⟩

end Infrared.Session
