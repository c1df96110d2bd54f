import Infrared.Proofs.Machine.Session

namespace Infrared

open Access (AllInRange allInRange_append allInRange_cons)

theorem Request.Reading.resumeBody_of_complete {l : Limits} {declared taken : Nat} {part : Part}
    {i j : Intake} {request : Request} (h : part.advance l i = (.ok (.complete request), j)) :
    resumeBody l declared taken part i =
      if taken + (i.inbound.pending - j.inbound.pending) = declared then (.ok (.inr request), j)
      else (.error .lengthMismatch, j) := by
  simp only [resumeBody, h]

theorem Request.Reading.resumeBody_of_incomplete {l : Limits} {declared taken : Nat} {part next : Part}
    {i j : Intake} (h : part.advance l i = (.ok next, j)) (hnext : ∀ request, next ≠ .complete request) :
    resumeBody l declared taken part i =
      if taken + (i.inbound.pending - j.inbound.pending) < declared then
        (.ok (.inl (.body declared (taken + (i.inbound.pending - j.inbound.pending)) next)), j)
      else (.error .lengthMismatch, j) := by
  simp only [resumeBody, h]

theorem Exchange.exists_ofKind? {kind : Packet.Kind} {part : Request.Part}
    (h : Request.Part.ofKind? kind = some part) : ∃ e, ofKind? kind = some e ∧ e.Awaits part := by
  cases kind <;> simp only [Request.Part.ofKind?, Option.some.injEq, reduceCtorEq] at h
  · exact ⟨_, rfl, h ▸ ⟨rfl, rfl⟩⟩
  · exact ⟨_, rfl, h ▸ rfl⟩
  · exact ⟨_, rfl, h ▸ rfl⟩

theorem Exchange.ofKind?_eq_none {kind : Packet.Kind} (h : Request.Part.ofKind? kind = none) :
    ofKind? kind = none := by
  cases kind <;> simp_all [Request.Part.ofKind?, ofKind?]

theorem Exchange.Shows.eq_complete {e : Exchange} {part : Request.Part} (h : e.Shows true part) :
    ∃ request, part = .complete request ∧ e.Asks request := by
  cases part <;> simp_all [Exchange.Shows]

theorem Exchange.Shows.awaits {e : Exchange} {part : Request.Part} (h : e.Shows false part) :
    (∀ request, part ≠ .complete request) ∧ e.Awaits part := by
  cases part <;> simp_all [Exchange.Shows]

/-- The stage at which a session is given up, if it fails when it is run: what it processes cannot fail. -/
def Session.stopStage (s : Session) : Stage :=
  match s.conversation with
  | some ⟨_, .request _⟩ => .request
  | _ => .response

/-- What is noted of a session that fails. -/
def Session.givenUp (s : Session) (fault? : Option Fault) : List (Stage × Fault) :=
  (fault?.map fun fault => (s.stopStage, fault)).toList

namespace CheckedSession

/-- Whether the machine is in a request. -/
def Reads (c : CheckedSession) : Request.Reading → Prop
  | .kind => c.head = {}
  | .length part => c.head = { step := .length } ∧ ∃ e, c.exchange = some e ∧ e.Awaits part
  | .body declared taken part => c.head = ⟨.body, declared, taken⟩ ∧ ∃ e, c.exchange = some e ∧ e.Awaits part

/-- Whether the flags of the machine say where a conversation is. -/
def Agrees (c : CheckedSession) : Option Session.Conversation → Prop
  | none => c.stage = .ready ∧ c.head = {} ∧ c.exchange = none ∧ c.response = .kind ∧ c.awaiting = false
  | some ⟨_, .request reading⟩ =>
    c.stage = .request ∧ c.Reads reading ∧ c.response = .kind ∧ c.awaiting = false
  | some ⟨_, .process request⟩ =>
    c.stage = .process ∧ (∃ e, c.exchange = some e ∧ e.Asks request) ∧ c.response = .kind ∧
      c.awaiting = false
  | some ⟨_, .response reply next awaiting⟩ =>
    c.stage = .response ∧ (∃ e, c.exchange = some e ∧ Exchange.Answers reply (e, c.response) next) ∧
      c.awaiting = awaiting

/-- Whether the machine has what a session has, wherever its conversation is. -/
structure Carries (c : CheckedSession) (s : Session) : Prop where
  connection_eq : c.connection = s.connection?
  inbound : c.inbound.Shows s.inbound
  outbound : c.outbound.Shows s.outbound
  scratch_eq : c.scratch = s.scratch.cells
  pulseWidth_eq : c.pulseWidth = s.limits.pulseWidth
  nameLength_eq : c.nameLengthMax = s.limits.nameLength
  aborted_eq : c.aborted = false

structure Shows (c : CheckedSession) (s : Session) : Prop extends c.Carries s where
  agrees : c.Agrees s.conversation

theorem shows_new (config : Config) : (new config).Shows (Session.new config) :=
  ⟨⟨rfl, .new _ _ _, .new _ _ _, rfl, rfl, rfl, rfl⟩, rfl, rfl, rfl, rfl, rfl⟩

theorem Shows.attach {c : CheckedSession} {s : Session} (h : c.Shows s) (connection : Connection) :
    (c.attach connection).1 = (s.attach connection).1 ∧
      (c.attach connection).2.Shows (s.attach connection).2 ∧
      (c.attach connection).2.stops = c.stops := by
  have hagrees := h.agrees
  rw [CheckedSession.attach, Session.attach, Session.isAttached, h.connection_eq, Session.connection?]
  cases hconversation : s.conversation with
  | some conversation => exact ⟨rfl, h, rfl⟩
  | none =>
      rw [hconversation] at hagrees
      obtain ⟨hstage, hhead, -, hresponse, hawaiting⟩ := hagrees
      rw [if_neg (by simp [hstage])]
      refine ⟨rfl, ⟨?_, rfl, hhead, hresponse, hawaiting⟩, rfl⟩
      exact ⟨rfl, h.inbound, h.outbound, h.scratch_eq, h.pulseWidth_eq, h.nameLength_eq, h.aborted_eq⟩

theorem Shows.isAttached_iff {c : CheckedSession} {s : Session} (h : c.Shows s) :
    s.isAttached = true ↔ c.connection ≠ none := by
  rw [h.connection_eq, Session.connection?, Session.isAttached]
  cases s.conversation with
  | none => simp
  | some conversation => simp

/-- Whether the reading of a request goes through and comes to what the session's comes to. Of the machine only
the intake, the head and the exchange change. -/
def Requests (c : CheckedSession) (d : Option (Except Fault Bool × CheckedSession))
    (r : Except Fault (Request.Reading ⊕ Request) × Request.Intake) : Prop :=
  ∃ result i head exchange,
    d = some (result, { c.take i with head := head, exchange := exchange }) ∧ i.Shows r.2 ∧
      match r.1 with
      | .ok (.inl reading) =>
        result = .ok false ∧ Reads { c.take i with head := head, exchange := exchange } reading
      | .ok (.inr request) => result = .ok true ∧ ∃ e, exchange = some e ∧ e.Asks request
      | .error fault => result = .error fault

variable {c : CheckedSession} {i : Request.Intake} {l : Request.Limits} {part : Request.Part}
  {declared taken : Nat} {e : Exchange}

theorem requests_body (hwidth : c.pulseWidth = l.pulseWidth) (hname : c.nameLengthMax = l.nameLength)
    (h : c.intake.Shows i) (hhead : c.head = ⟨.body, declared, taken⟩) (hexchange : c.exchange = some e)
    (he : e.Awaits part) (hin : AllInRange (part.accesses l i)) :
    c.Requests c.requestBody (Request.Reading.resumeBody l declared taken part i) := by
  obtain ⟨result, e', i', hdecode, hi', hresult⟩ := Exchange.decodes h he hin
  have hbefore : c.inbound.cells.pending = some i.inbound.pending := h.inbound.pending_eq
  have hafter := hi'.inbound.pending_eq
  have hle := part.pending_advance_le l i
  simp only [requestBody, hexchange, hbefore, hwidth, hname, hdecode, Option.bind_eq_bind, Option.bind_some]
  cases hadvance : part.advance l i with
  | mk outcome j =>
      rw [hadvance] at hresult hi' hafter hle
      cases outcome with
      | error fault =>
          subst hresult
          simp only [Request.Reading.resumeBody, hadvance]
          exact ⟨_, i', c.head, some e', rfl, hi', rfl⟩
      | ok next =>
          obtain ⟨complete, rfl, hnext⟩ := hresult
          have hsub : Checked.sub i.inbound.pending j.inbound.pending =
              some (i.inbound.pending - j.inbound.pending) := Checked.sub_of_le hle
          simp only [take, hafter, hsub, Option.bind_some, hhead]
          cases complete with
          | true =>
              obtain ⟨request, rfl, hasks⟩ := hnext.eq_complete
              rw [Request.Reading.resumeBody_of_complete hadvance]
              by_cases htotal : taken + (i.inbound.pending - j.inbound.pending) = declared
              · rw [if_pos htotal, if_neg (by simp [htotal])]
                exact ⟨_, i', _, _, rfl, hi', rfl, e', rfl, hasks⟩
              · rw [if_neg htotal, if_pos (by simp [htotal])]
                exact ⟨_, i', _, _, rfl, hi', rfl⟩
          | false =>
              obtain ⟨hincomplete, hawaits⟩ := hnext.awaits
              rw [Request.Reading.resumeBody_of_incomplete hadvance hincomplete]
              by_cases htotal : taken + (i.inbound.pending - j.inbound.pending) < declared
              · rw [if_pos htotal, if_neg (by simp; omega)]
                exact ⟨_, i', _, _, rfl, hi', rfl, rfl, e', rfl, hawaits⟩
              · rw [if_neg htotal, if_pos (by simp; omega)]
                exact ⟨_, i', _, _, rfl, hi', rfl⟩

theorem requests_length (hwidth : c.pulseWidth = l.pulseWidth) (hname : c.nameLengthMax = l.nameLength)
    (h : c.intake.Shows i) (hhead : c.head = { step := .length }) (hexchange : c.exchange = some e)
    (he : e.Awaits part) (hin : AllInRange (Request.Reading.lengthAccesses l part i)) :
    c.Requests c.requestLength (Request.Reading.resumeLength l part i) := by
  obtain ⟨i', hword, hi'⟩ := h.word (show 2 ≤ Field.Kind.fixed.limit by decide)
  rw [requestLength, hword, Option.bind_eq_bind, Option.bind_some, Request.Reading.resumeLength]
  rw [Request.Reading.lengthAccesses, allInRange_append] at hin
  cases hmoved : i.word 2 with
  | mk result j =>
      rw [hmoved] at hi' hin
      cases result with
      | error fault => exact ⟨_, i', c.head, c.exchange, rfl, hi', rfl⟩
      | ok length =>
          cases length with
          | none => exact ⟨_, i', c.head, c.exchange, rfl, hi', rfl, hhead, e, hexchange, he⟩
          | some length =>
              rw [hhead]
              exact requests_body (c := { c.take i' with head := ⟨.body, length, 0⟩ }) hwidth hname hi' rfl
                hexchange he hin.2

theorem requests_kind (hwidth : c.pulseWidth = l.pulseWidth) (hname : c.nameLengthMax = l.nameLength)
    (h : c.intake.Shows i) (hhead : c.head = {}) (hin : AllInRange (Request.Reading.kindAccesses l i)) :
    c.Requests c.requestKind (Request.Reading.resumeKind l i) := by
  obtain ⟨i', hword, hi'⟩ := h.word (show 1 ≤ Field.Kind.fixed.limit by decide)
  rw [requestKind, hword, Option.bind_eq_bind, Option.bind_some, Request.Reading.resumeKind]
  rw [Request.Reading.kindAccesses, allInRange_append] at hin
  cases hmoved : i.word 1 with
  | mk result j =>
      rw [hmoved] at hi' hin
      cases result with
      | error fault => exact ⟨_, i', c.head, c.exchange, rfl, hi', rfl⟩
      | ok code =>
          cases code with
          | none => exact ⟨_, i', c.head, c.exchange, rfl, hi', rfl, hhead⟩
          | some code =>
              have hin := hin.2
              simp only [Request.Part.ofCode] at hin ⊢
              cases hkind : Packet.Kind.ofCode (UInt8.ofNat code) with
              | error fault => exact ⟨_, i', c.head, c.exchange, rfl, hi', rfl⟩
              | ok kind =>
                  rw [hkind] at hin
                  dsimp only at hin ⊢
                  cases hpart : Request.Part.ofKind? kind with
                  | none =>
                      rw [Exchange.ofKind?_eq_none hpart]
                      exact ⟨_, i', c.head, c.exchange, rfl, hi', rfl⟩
                  | some part =>
                      obtain ⟨e, hexchange, he⟩ := Exchange.exists_ofKind? hpart
                      rw [hpart] at hin
                      rw [hexchange, hhead]
                      exact requests_length
                        (c := { c.take i' with exchange := some e, head := { step := .length } }) hwidth
                        hname hi' rfl rfl he hin

/-- The reading of a request goes through, if the session's has what it takes, and comes to the same. -/
theorem requests {reading : Request.Reading} (hwidth : c.pulseWidth = l.pulseWidth)
    (hname : c.nameLengthMax = l.nameLength) (h : c.intake.Shows i) (hreads : c.Reads reading)
    (hin : AllInRange (reading.accesses l i)) : c.Requests c.request (reading.resume l i) := by
  cases reading with
  | kind =>
      have hhead : c.head = {} := hreads
      rw [request, hhead]
      exact requests_kind hwidth hname h hhead hin
  | length part =>
      obtain ⟨hhead, e, hexchange, he⟩ := hreads
      rw [request, hhead]
      exact requests_length hwidth hname h hhead hexchange he hin
  | body declared taken part =>
      obtain ⟨hhead, e, hexchange, he⟩ := hreads
      rw [request, hhead]
      exact requests_body hwidth hname h hhead hexchange he hin

variable {ω : Type} [Platform ω] {s : Session} {board : CheckedBoard ω} {b : Board ω} {reply : Reply}
  {connection : Connection} {next : Nat}

theorem Carries.shows_reset (h : c.Carries s) (hboard : board.Shows b) :
    (c.reset board).1.Shows (s.release b).1 ∧ (c.reset board).2.Shows (s.release b).2 := by
  refine ⟨⟨⟨rfl, h.inbound.reset, h.outbound.reset, ?_, h.pulseWidth_eq, h.nameLength_eq, rfl⟩,
    rfl, rfl, rfl, rfl, rfl⟩, ?_⟩
  · show c.scratch.reset = _
    rw [h.scratch_eq]
    rfl
  · rw [reset, Session.release, h.connection_eq, Session.connection?]
    cases s.conversation with
    | none => exact hboard.resetStation
    | some conversation => exact (hboard.tell _).resetStation

theorem slice_span {store : Buffer} {span : Span}
    (h : (Access.slice store.cursor span.start span.length).InRange) :
    ∃ text, span.read? store = some text ∧
      Checked.slice store.filled span.start (span.start + span.length) = some text := by
  have hfilled : span.start + span.length ≤ store.filled.length := by
    rw [Buffer.length_filled]
    exact h
  refine ⟨_, (store.slice?_eq_some_iff _ _ _).mpr ⟨h, rfl⟩, ?_⟩
  rw [Checked.slice_of_le _ (Nat.le_add_right _ _) hfilled, Nat.add_sub_cancel_left]

theorem Carries.apply (h : c.Carries s) (hboard : board.Shows b) (hexchange : c.exchange = some e)
    (he : e.At reply next) (hin : AllInRange (s.applyAccesses reply b)) :
    ∃ board', c.apply board = some board' ∧ board'.Shows (s.apply reply b) := by
  rw [CheckedSession.apply, h.aborted_eq, hexchange]
  simp only [Bool.false_eq_true, if_false]
  cases e with
  | send e =>
      cases reply with
      | sent => exact ⟨board, rfl, hboard⟩
      | _ => exact he.elim
  | receive e =>
      cases reply with
      | captured count => exact ⟨board, rfl, hboard⟩
      | _ => exact he.elim
  | config e =>
      cases reply with
      | configured name ssid password =>
          obtain ⟨rfl, rfl, rfl, -⟩ := he
          obtain ⟨hspans, -⟩ := allInRange_append.mp hin
          obtain ⟨hname, hspans⟩ := allInRange_cons.mp hspans
          obtain ⟨hssid, hspans⟩ := allInRange_cons.mp hspans
          obtain ⟨hpassword, -⟩ := allInRange_cons.mp hspans
          obtain ⟨name, hname, hsliceName⟩ := slice_span hname
          obtain ⟨ssid, hssid, hsliceSsid⟩ := slice_span hssid
          obtain ⟨password, hpassword, hslicePassword⟩ := slice_span hpassword
          obtain ⟨renamed, hrename, hrenamed⟩ := hboard.rename name
          simp only [h.scratch_eq, Buffer.filled_cells, hsliceName, hrename, hsliceSsid, hslicePassword,
            Option.bind_eq_bind, Option.bind_some, Session.apply, hname, hssid, hpassword, Board.announce,
            hrenamed.listener_eq, hrenamed.name_eq]
          by_cases hlistener : (b.rename name).2.listener = true
          · rw [if_pos hlistener, if_pos hlistener]
            exact ⟨_, rfl, hrenamed.tell _⟩
          · rw [if_neg hlistener, if_neg hlistener]
            exact ⟨_, rfl, hrenamed⟩
      | _ => exact he.elim

/-- Whether a step goes through and comes to what the session's comes to. A fault leaves the machine at the stage
at which it came up. -/
def Steps (stage : Stage) (stops : List (Stage × Fault))
    (d : Option (Except Fault Session.Progress × CheckedSession × CheckedBoard ω))
    (r : Except Fault Session.Progress × Session × Board ω) : Prop :=
  ∃ c board, d = some (r.1, c, board) ∧ c.Carries r.2.1 ∧ board.Shows r.2.2 ∧ c.stops = stops ∧
    match r.1 with
    | .ok _ => c.Agrees r.2.1.conversation
    | .error _ => c.stage = stage

theorem Carries.steps_response (h : c.Carries s) (hboard : board.Shows b)
    (hconversation : s.connection? = some connection) (hstage : c.stage = .response)
    (hawaiting : c.awaiting = false) (hexchange : c.exchange = some e)
    (he : Exchange.Answers reply (e, c.response) next)
    (hin : AllInRange (s.responseAccesses reply next b)) :
    Steps .response c.stops (c.stepResponse board) (s.stepResponse connection reply next b) := by
  obtain ⟨hencode, hin⟩ := allInRange_append.mp hin
  obtain ⟨⟨e', response⟩, outbound, hencoded, houtbound, he'⟩ := Exchange.encodes h.outbound he hencode
  have hconnection := h.connection_eq.trans hconversation
  rw [stepResponse, respond, hawaiting]
  simp only [Bool.false_eq_true, if_false, encodeResponse, hexchange, h.pulseWidth_eq, h.scratch_eq, hencoded,
    Option.bind_eq_bind, Option.bind_some]
  rw [Session.stepResponse]
  cases hmoved : reply.encode s.limits.pulseWidth s.scratch next s.outbound with
  | mk result rest =>
      obtain ⟨last, out⟩ := rest
      rw [hmoved] at houtbound he' hin
      cases result with
      | error fault =>
          exact ⟨_, _, rfl, ⟨h.connection_eq, h.inbound, houtbound, rfl, rfl, h.nameLength_eq, h.aborted_eq⟩,
            hboard, rfl, hstage⟩
      | ok complete =>
          obtain ⟨index, hat⟩ := he'.exists_at
          dsimp only at hin houtbound
          obtain ⟨-, hin⟩ := allInRange_cons.mp hin
          -- What the machine has once it wrote the piece, whatever it does with it.
          have hwrote (stage : Stage) : Carries { c with
                stage := stage
                scratch := s.scratch.cells
                pulseWidth := s.limits.pulseWidth
                exchange := some e'
                response := response
                outbound := outbound } ⟨s.limits, s.inbound, out, s.scratch, s.conversation⟩ :=
            ⟨h.connection_eq, h.inbound, houtbound, rfl, rfl, h.nameLength_eq, h.aborted_eq⟩
          simp only [houtbound.filled_eq, Option.bind_some]
          by_cases hempty : out.data.isEmpty = true
          · rw [if_pos hempty] at hin
            rw [if_pos hempty, if_pos hempty]
            cases complete with
            | false => exact ⟨_, _, rfl, hwrote c.stage, hboard, rfl, hstage⟩
            | true =>
                obtain ⟨applied, happly, happlied⟩ := (hwrote .finish).apply hboard rfl hat hin
                obtain ⟨hs, hb⟩ := (hwrote .finish).shows_reset happlied
                simp only [if_true, Option.bind_some, stepFinish, finish, happly, Option.bind_eq_bind]
                exact ⟨_, _, rfl, hs.toCarries, hb, rfl, hs.agrees⟩
          · rw [if_neg hempty, if_neg hempty, hconnection, hboard.world_eq]
            dsimp only
            cases hsend : Platform.send connection out.data b.world with
            | mk accepted world =>
                cases accepted with
                | false =>
                    refine ⟨_, _, rfl, ?_, hboard.with_world world, rfl, hstage⟩
                    exact ⟨hconversation.symm, h.inbound, houtbound, rfl, rfl, h.nameLength_eq, h.aborted_eq⟩
                | true =>
                    refine ⟨_, _, rfl, ?_, hboard.with_world world, rfl, hstage, ⟨e', rfl, he'⟩, rfl⟩
                    exact ⟨rfl, h.inbound, houtbound.drain, rfl, rfl, h.nameLength_eq, h.aborted_eq⟩

/-- Whatever the request was, the reply to it begins with its first field. -/
theorem Carries.steps_begin (h : c.Carries s) (hboard : board.Shows b)
    (hconversation : s.connection? = some connection) (hexchange : c.exchange = some e)
    (hat : e.At reply 2) (hresponse : c.response = .kind) (hawaiting : c.awaiting = false)
    (hin : AllInRange (s.responseAccesses reply 0 b)) :
    Steps .response c.stops (stepResponse { c with stage := .response } board)
      (s.stepResponse connection reply 0 b) := by
  have hcarries : Carries { c with stage := .response } s :=
    ⟨h.connection_eq, h.inbound, h.outbound, h.scratch_eq, h.pulseWidth_eq, h.nameLength_eq, h.aborted_eq⟩
  refine hcarries.steps_response hboard hconversation rfl hawaiting hexchange ?_ hin
  rw [hresponse]
  exact ⟨rfl, hat⟩

theorem Carries.steps_process {request : Request} (h : c.Carries s) (hboard : board.Shows b)
    (hconversation : s.connection? = some connection) (hstage : c.stage = .process)
    (hexchange : c.exchange = some e) (he : e.Asks request) (hresponse : c.response = .kind)
    (hawaiting : c.awaiting = false) (hsame : s.conversation = some ⟨connection, .process request⟩)
    (hin : AllInRange (s.processAccesses request b)) :
    Steps .response c.stops (c.stepProcess board) (s.stepProcess connection request b) := by
  obtain ⟨limits, inbound, outbound, scratch, conversation⟩ := s
  dsimp only at hsame
  subst hsame
  simp only [stepProcess, process, hexchange]
  cases e with
  | send e =>
      cases request with
      | send frequency =>
          have hfrequency : e.frequency = frequency := he
          obtain ⟨-, hin⟩ := allInRange_cons.mp hin
          obtain ⟨-, hin⟩ := allInRange_append.mp hin
          obtain ⟨transmitted, htransmit, htransmitted⟩ := hboard.transmit frequency scratch.filled
          simp only [h.scratch_eq, Buffer.filled_cells, hfrequency, htransmit, Option.bind_eq_bind,
            Option.bind_some]
          rw [← h.scratch_eq]
          exact h.steps_begin htransmitted hconversation hexchange rfl hresponse hawaiting hin
      | _ => exact he.elim
  | receive e =>
      cases request with
      | receive report =>
          have he : e = { report := report } := he
          subst he
          cases report with
          | some report =>
              have hat : (Exchange.receive { report := some report }).At (.captured report.count) 2 :=
                ⟨⟨report, rfl, rfl⟩, rfl, fun _ => rfl⟩
              simp only [ne_eq, reduceCtorEq, not_false_eq_true, if_true, Option.bind_eq_bind, Option.bind_some]
              exact h.steps_begin hboard hconversation hexchange hat hresponse hawaiting hin
          | none =>
              have harmed : board.station.armed = b.station.armed := by
                rw [← hboard.station_eq]
                rfl
              simp only [ne_eq, not_true_eq_false, if_false, harmed, Session.stepProcess]
              cases b.station.armed with
              | true =>
                  exact ⟨_, _, rfl, h, hboard, rfl, hstage, ⟨_, hexchange, rfl⟩, hresponse, hawaiting⟩
              | false =>
                  refine ⟨_, _, rfl, ?_, hboard.armCapture, rfl, hstage, ⟨_, rfl, rfl⟩, hresponse, hawaiting⟩
                  exact ⟨h.connection_eq, h.inbound, h.outbound, congrArg Cells.reset h.scratch_eq,
                    h.pulseWidth_eq, h.nameLength_eq, h.aborted_eq⟩
      | _ => exact he.elim
  | config e =>
      cases request with
      | config name ssid password =>
          obtain ⟨hname, hssid, hpassword⟩ := he
          simp only [Option.bind_eq_bind, Option.bind_some]
          exact h.steps_begin hboard hconversation hexchange ⟨hname, hssid, hpassword, rfl⟩ hresponse hawaiting hin
      | _ => exact he.elim

omit [Platform ω] in
theorem Carries.steps_request {reading : Request.Reading} (h : c.Carries s) (hboard : board.Shows b)
    (hsame : s.conversation = some ⟨connection, .request reading⟩) (hstage : c.stage = .request)
    (hreads : c.Reads reading) (hresponse : c.response = .kind) (hawaiting : c.awaiting = false)
    (hin : AllInRange (reading.accesses s.limits ⟨s.inbound, s.scratch⟩)) :
    Steps .request c.stops (c.stepRequest board) (s.stepRequest connection reading b) := by
  have hconnection : c.connection = some connection := by
    rw [h.connection_eq, Session.connection?, hsame]
    rfl
  obtain ⟨limits, inbound, outbound, scratch, conversation⟩ := s
  dsimp only at hsame hin
  subst hsame
  obtain ⟨result, i, head, exchange, hrequest, hi, hresult⟩ :=
    requests h.pulseWidth_eq h.nameLength_eq
      (show c.intake.Shows ⟨inbound, scratch⟩ from ⟨h.inbound, h.scratch_eq⟩) hreads hin
  have hcarries {stage : Stage} {phase : Session.Phase} :
      Carries { c.take i with stage := stage, head := head, exchange := exchange }
        ⟨limits, (reading.resume limits ⟨inbound, scratch⟩).2.inbound, outbound,
          (reading.resume limits ⟨inbound, scratch⟩).2.scratch, some ⟨connection, phase⟩⟩ :=
    ⟨hconnection, hi.inbound, h.outbound, hi.scratch_eq, h.pulseWidth_eq, h.nameLength_eq, h.aborted_eq⟩
  simp only [stepRequest, hrequest, Option.bind_eq_bind, Option.bind_some, Session.stepRequest]
  cases hmoved : reading.resume limits ⟨inbound, scratch⟩ with
  | mk outcome j =>
      rw [hmoved] at hresult hcarries
      cases outcome with
      | error fault =>
          subst hresult
          exact ⟨_, _, rfl, hcarries, hboard, rfl, hstage⟩
      | ok settled =>
          cases settled with
          | inl reading =>
              obtain ⟨rfl, hreads⟩ := hresult
              exact ⟨_, _, rfl, hcarries, hboard, rfl, hstage, hreads, hresponse, hawaiting⟩
          | inr request =>
              obtain ⟨rfl, hasks⟩ := hresult
              exact ⟨_, _, rfl, hcarries, hboard, rfl, rfl, hasks, hresponse, hawaiting⟩

theorem Shows.steps (h : c.Shows s) (hboard : board.Shows b) (hin : AllInRange (s.runAccesses b)) :
    Steps s.stopStage c.stops (c.step board) (s.step b) := by
  obtain ⟨hcarries, hagrees⟩ := h
  rw [step, Session.step]
  cases hconversation : s.conversation with
  | none =>
      rw [hconversation] at hagrees
      have hconnection : c.connection = none := by
        rw [hcarries.connection_eq, Session.connection?, hconversation]
        rfl
      rw [hagrees.1]
      simp only [hconnection, if_true]
      exact ⟨_, _, rfl, hcarries, hboard, rfl, hconversation ▸ hagrees⟩
  | some conversation =>
      obtain ⟨connection, phase⟩ := conversation
      have hconnection : s.connection? = some connection := by
        rw [Session.connection?, hconversation]
        rfl
      rw [hconversation] at hagrees
      rw [Session.runAccesses, hconversation] at hin
      rw [Session.stopStage, hconversation]
      cases phase with
      | request reading =>
          obtain ⟨hstage, hreads, hresponse, hawaiting⟩ := hagrees
          rw [hstage]
          exact hcarries.steps_request hboard hconversation hstage hreads hresponse hawaiting hin
      | process request =>
          obtain ⟨hstage, ⟨e, hexchange, he⟩, hresponse, hawaiting⟩ := hagrees
          rw [hstage]
          exact hcarries.steps_process hboard hconnection hstage hexchange he hresponse hawaiting
            hconversation hin
      | response reply next awaiting =>
          obtain ⟨hstage, ⟨e, hexchange, he⟩, hawaiting⟩ := id hagrees
          rw [hstage]
          cases awaiting with
          | false => exact hcarries.steps_response hboard hconnection hstage hawaiting hexchange he hin
          | true =>
              simp only [stepResponse, respond, hawaiting, if_true, Option.bind_eq_bind, Option.bind_some]
              exact ⟨_, _, rfl, hcarries, hboard, rfl, hconversation ▸ hagrees⟩

/-- Whether a call goes through and comes to what the session's comes to. -/
def Runs (stops : List (Stage × Fault)) (d : Option (Session.Progress × CheckedSession × CheckedBoard ω))
    (r : Session.Progress × Session × Board ω) : Prop :=
  ∃ c board, d = some (r.1, c, board) ∧ c.Shows r.2.1 ∧ board.Shows r.2.2 ∧ c.stops = stops

theorem Carries.shows_stop (h : c.Carries s) (hboard : board.Shows b) :
    ∃ c' board', c.stop board = some (c', board') ∧ c'.Shows (s.release b).1 ∧
      board'.Shows (s.release b).2 ∧ c'.stops = c.stops := by
  obtain ⟨hs, hb⟩ := h.shows_reset hboard
  exact ⟨_, _, rfl, hs, hb, rfl⟩

theorem Carries.runs_fail (h : c.Carries s) (hboard : board.Shows b) (fault : Fault) :
    Runs (c.stops ++ [(c.stage, fault)]) (c.fail fault board) (.done, s.release b) := by
  have hcarries : Carries { c with stops := c.stops ++ [(c.stage, fault)] } s :=
    ⟨h.connection_eq, h.inbound, h.outbound, h.scratch_eq, h.pulseWidth_eq, h.nameLength_eq, h.aborted_eq⟩
  obtain ⟨c', board', hstop, hshows⟩ := hcarries.shows_stop hboard
  refine ⟨c', board', ?_, hshows⟩
  rw [fail, hstop]
  rfl

theorem Shows.runs (h : c.Shows s) (hboard : board.Shows b) (hin : AllInRange (s.runAccesses b)) :
    Runs (c.stops ++ s.givenUp (s.runFault? b)) (c.run board) (s.run b) := by
  obtain ⟨c', board', hstep, hc', hboard', hstops, hresult⟩ := h.steps hboard hin
  rw [CheckedSession.run, hstep, Option.bind_eq_bind, Option.bind_some, Session.run, Session.runFault?]
  cases hmoved : s.step b with
  | mk result rest =>
      obtain ⟨s', b'⟩ := rest
      rw [hmoved] at hc' hboard' hresult
      cases result with
      | ok progress => exact ⟨_, _, rfl, ⟨hc', hresult⟩, hboard', by simp [hstops, Session.givenUp]⟩
      | error fault =>
          obtain ⟨c'', board'', hfail, hc'', hboard'', hlog⟩ := hc'.runs_fail hboard' fault
          refine ⟨c'', board'', hfail, hc'', hboard'', ?_⟩
          rw [hlog, hstops, hresult]
          rfl

theorem Shows.connection_of (h : c.Shows s) {phase : Session.Phase}
    (hconversation : s.conversation = some ⟨connection, phase⟩) : c.connection = some connection := by
  rw [h.connection_eq, Session.connection?, hconversation]
  rfl

theorem Shows.stage_eq_request_iff (h : c.Shows s) :
    c.stage = .request ↔ ∃ connection reading, s.conversation = some ⟨connection, .request reading⟩ := by
  have hagrees := h.agrees
  cases hconversation : s.conversation with
  | none =>
      rw [hconversation] at hagrees
      rw [hagrees.1]
      simp
  | some conversation =>
      obtain ⟨connection, phase⟩ := conversation
      rw [hconversation] at hagrees
      cases phase with
      | _ => simp [hagrees.1]

theorem Shows.runs_receive (h : c.Shows s) (hboard : board.Shows b) (data : List UInt8)
    (hin : AllInRange (s.receiveAccesses data b)) :
    Runs (c.stops ++ s.givenUp (s.receiveFault? data b)) (c.receive data board) (s.receive data b) := by
  rw [receive]
  by_cases hstage : c.stage = .request
  · obtain ⟨connection, reading, hconversation⟩ := h.stage_eq_request_iff.mp hstage
    obtain ⟨inbound, hfeed, hinbound⟩ := h.inbound.feed data
    have hagrees := h.agrees
    rw [Session.receiveAccesses, hconversation] at hin
    rw [hconversation] at hagrees
    obtain ⟨limits, current, outbound, scratch, conversation⟩ := s
    dsimp only at hconversation
    subst hconversation
    have hcarries : Carries { c with inbound := inbound }
        ⟨limits, (current.feed data).2, outbound, scratch, some ⟨connection, .request reading⟩⟩ :=
      ⟨h.connection_eq, hinbound, h.outbound, h.scratch_eq, h.pulseWidth_eq, h.nameLength_eq, h.aborted_eq⟩
    rw [if_neg (not_not_intro hstage)]
    simp only [hfeed, Option.bind_eq_bind, Option.bind_some, Session.receive, Session.receiveFault?]
    dsimp only at hin
    cases hmoved : current.feed data with
    | mk result fed =>
        rw [hmoved] at hcarries hin
        cases result with
        | ok _ =>
            exact Shows.runs (s := ⟨limits, fed, outbound, scratch, some ⟨connection, .request reading⟩⟩)
              ⟨hcarries, hagrees⟩ hboard (allInRange_append.mp hin).2
        | error fault =>
            show Runs (c.stops ++ [(Stage.request, fault)]) _ _
            rw [← hstage]
            exact hcarries.runs_fail hboard fault
  · rw [if_pos hstage]
    have hlogged : c.stops = c.stops ++ s.givenUp none := (List.append_nil _).symm
    obtain ⟨limits, inbound, outbound, scratch, conversation⟩ := s
    rcases conversation with _ | ⟨connection, reading | request | ⟨reply, next, awaiting⟩⟩
    · exact ⟨c, board, rfl, h, hboard, hlogged⟩
    · exact absurd (h.stage_eq_request_iff.mpr ⟨connection, reading, rfl⟩) hstage
    · exact ⟨c, board, rfl, h, hboard, hlogged⟩
    · exact ⟨c, board, rfl, h, hboard, hlogged⟩

theorem Shows.runs_sent (h : c.Shows s) (hboard : board.Shows b) (hin : AllInRange (s.sentAccesses b)) :
    Runs (c.stops ++ s.givenUp (s.sentFault? b)) (c.sent board) (s.sent b) := by
  have hagrees := h.agrees
  have hlogged : c.stops = c.stops ++ s.givenUp none := (List.append_nil _).symm
  obtain ⟨limits, inbound, outbound, scratch, conversation⟩ := s
  rw [sent]
  match conversation with
  | none =>
      rw [if_neg (by simp [hagrees.2.2.2.2])]
      exact ⟨c, board, rfl, h, hboard, hlogged⟩
  | some ⟨_, .request _⟩ =>
      rw [if_neg (by simp [hagrees.2.2.2])]
      exact ⟨c, board, rfl, h, hboard, hlogged⟩
  | some ⟨_, .process _⟩ =>
      rw [if_neg (by simp [hagrees.2.2.2])]
      exact ⟨c, board, rfl, h, hboard, hlogged⟩
  | some ⟨_, .response _ _ false⟩ =>
      rw [if_neg (by simp [hagrees.2.2])]
      exact ⟨c, board, rfl, h, hboard, hlogged⟩
  | some ⟨connection, .response reply next true⟩ =>
      obtain ⟨hstage, hexchange, hawaiting⟩ := hagrees
      have hshows : Shows { c with awaiting := false }
          ⟨limits, inbound, outbound, scratch, some ⟨connection, .response reply next false⟩⟩ :=
        ⟨⟨h.connection_eq, h.inbound, h.outbound, h.scratch_eq, h.pulseWidth_eq, h.nameLength_eq,
          h.aborted_eq⟩, hstage, hexchange, rfl⟩
      rw [if_pos hawaiting]
      exact hshows.runs hboard hin

theorem Shows.disconnect (h : c.Shows s) (hboard : board.Shows b) :
    ∃ c' board', c.disconnect board = some (c', board') ∧ c'.Shows (s.disconnect b).1 ∧
      board'.Shows (s.disconnect b).2 ∧ c'.stops = c.stops := by
  have hcarries : Carries { c with connection := none } { s with conversation := none } :=
    ⟨rfl, h.inbound, h.outbound, h.scratch_eq, h.pulseWidth_eq, h.nameLength_eq, h.aborted_eq⟩
  exact hcarries.shows_stop hboard

theorem Shows.runs_edge (h : c.Shows s) (hboard : board.Shows b) (hin : AllInRange (s.edgeAccesses b)) :
    Runs c.stops (c.edge board) (s.edge b) := by
  obtain ⟨captured, hcapture, hcaptured⟩ := hboard.capture s.scratch hin
  obtain ⟨limits, inbound, outbound, scratch, conversation⟩ := s
  have hscratch : c.scratch = scratch.cells := h.scratch_eq
  have hshows : Shows { c with scratch := (b.capture scratch).2.2.cells }
      ⟨limits, inbound, outbound, (b.capture scratch).2.2, conversation⟩ :=
    ⟨⟨h.connection_eq, h.inbound, h.outbound, rfl, h.pulseWidth_eq, h.nameLength_eq, h.aborted_eq⟩,
      h.agrees⟩
  rw [edge, hscratch, hcapture, Option.bind_eq_bind, Option.bind_some, Session.edge]
  cases hmoved : b.capture scratch with
  | mk report rest =>
      obtain ⟨b', store⟩ := rest
      rw [hmoved] at hcaptured hshows
      cases report with
      | none => exact ⟨_, _, rfl, hshows, hcaptured, rfl⟩
      | some report =>
          have hagrees := h.agrees
          dsimp only
          split
          · rename_i e hstage hexchange
            rcases conversation with _ | ⟨connection, reading | request | ⟨reply, next, awaiting⟩⟩
            · simp [hagrees.1] at hstage
            · simp [hagrees.1] at hstage
            · obtain ⟨-, ⟨e', hexchange', he⟩, hresponse, hawaiting⟩ := hagrees
              obtain rfl := Option.some.inj (hexchange.symm.trans hexchange')
              cases request with
              | receive before =>
                  have he : e = { report := before } := he
                  subst he
                  have hcarries := hshows.toCarries
                  refine ⟨_, _, rfl, ⟨?_, hstage, ⟨_, rfl, rfl⟩, hresponse, hawaiting⟩, hcaptured, rfl⟩
                  exact ⟨hcarries.connection_eq, hcarries.inbound, hcarries.outbound, rfl,
                    hcarries.pulseWidth_eq, hcarries.nameLength_eq, hcarries.aborted_eq⟩
              | _ => exact he.elim
            · simp [hagrees.1] at hstage
          · rename_i hother
            rcases conversation with _ | ⟨connection, reading | request | ⟨reply, next, awaiting⟩⟩
            · exact ⟨_, _, rfl, hshows, hcaptured, rfl⟩
            · exact ⟨_, _, rfl, hshows, hcaptured, rfl⟩
            · cases request with
              | receive before =>
                  obtain ⟨hstage, ⟨e, hexchange, he⟩, -⟩ := hagrees
                  cases e with
                  | receive e => exact (hother e hstage hexchange).elim
                  | _ => exact he.elim
              | _ => exact ⟨_, _, rfl, hshows, hcaptured, rfl⟩
            · exact ⟨_, _, rfl, hshows, hcaptured, rfl⟩

end CheckedSession

end Infrared
