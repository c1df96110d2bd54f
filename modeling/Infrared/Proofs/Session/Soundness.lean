import Infrared.Proofs.BoardCalls
import Infrared.Proofs.Request.Room
import Infrared.Proofs.Session.Refinement

namespace Infrared

open Access (AllInRange InRange allInRange_nil allInRange_cons allInRange_append)

namespace Reply

/-- What it takes to say what the field at an index is: counters for the length of the body and for the pulses,
and the bytes of a pulse in the store. -/
def fieldAccesses (width : PulseWidth) (scratch : Buffer) (r : Reply) (index : Nat) : List Access :=
  match index, r with
  | 1, captured count => [.count (Packet.pulsesHeadLength + count * width.bytes)]
  | 3, captured count => [.count count]
  | index + 4, captured _ =>
    [.slice scratch.cursor (index * width.bytes) width.bytes, .count (index + 1)]
  | _, _ => []

def encodeAccesses (width : PulseWidth) (scratch : Buffer) (r : Reply) (next : Nat)
    (out : FieldStream) : List Access :=
  if next < r.fieldCount then
    r.fieldAccesses width scratch next ++
      match r.field width scratch next with
      | .ok f =>
        out.moveAccesses f.bytes.length ++
          match out.write f with
          | (.ok true, out) => r.encodeAccesses width scratch (next + 1) out
          | _ => []
      | .error _ => []
  else []
termination_by r.fieldCount - next

variable {width : PulseWidth} {scratch : Buffer} {r : Reply}

theorem allInRange_fieldAccesses (h : r.Backed width scratch.filled) {index : Nat}
    (hindex : index < r.fieldCount) : AllInRange (r.fieldAccesses width scratch index) := by
  match index, r with
  | 0, _ => exact allInRange_nil
  | 2, _ => exact allInRange_nil
  | 1, .sent => exact allInRange_nil
  | 1, .configured _ _ _ => exact allInRange_nil
  | 1, .captured count => exact allInRange_cons.mpr ⟨h.2, allInRange_nil⟩
  | 3, .captured count =>
      have hcount : count ≤ count * width.bytes := Nat.le_mul_of_pos_right count width.bytes_pos
      refine allInRange_cons.mpr ⟨?_, allInRange_nil⟩
      have hbody := h.2
      simp only [InRange]
      omega
  | index + 4, .captured count =>
      have hlt : index < count := by
        simp only [fieldCount] at hindex
        omega
      have hend : (index + 1) * width.bytes ≤ count * width.bytes := Nat.mul_le_mul_right _ hlt
      have hcount : count ≤ count * width.bytes := Nat.le_mul_of_pos_right count width.bytes_pos
      have hbody := h.2
      have hfilled : count * width.bytes = scratch.cursor := by
        rw [h.1, Buffer.length_filled]
        rfl
      rw [Nat.succ_mul] at hend
      refine allInRange_cons.mpr ⟨?_, allInRange_cons.mpr ⟨?_, allInRange_nil⟩⟩
      · simp only [InRange]
        omega
      · simp only [InRange]
        omega
  | index + 3, .sent =>
      simp only [fieldCount] at hindex
      omega
  | index + 3, .configured _ _ _ =>
      simp only [fieldCount] at hindex
      omega

theorem allInRange_encodeAccesses (h : r.Backed width scratch.filled) {next : Nat} {out : FieldStream}
    (hposition : ∀ f, ((r.answer width scratch.filled).fields width)[next]? = some f →
      out.position ≤ f.bytes.length) : AllInRange (r.encodeAccesses width scratch next out) := by
  -- Only the first field may have been moved in part; before every other the stream is between two fields.
  induction hn : r.fieldCount - next generalizing next out with
  | zero =>
      rw [encodeAccesses, if_neg (by omega)]
      exact allInRange_nil
  | succ n ih =>
      have hnext : next < r.fieldCount := by omega
      obtain ⟨f, hfield, hf⟩ := field_eq h hnext
      obtain ⟨-, hlimit⟩ := Answer.length_le_limit_of_mem_fields (List.mem_of_getElem? hf)
      have hlength := Nat.le_trans hlimit f.kind.limit_le
      rw [encodeAccesses, if_pos hnext, hfield]
      refine allInRange_append.mpr ⟨allInRange_fieldAccesses h hnext, ?_⟩
      refine allInRange_append.mpr ⟨out.allInRange_moveAccesses (hposition f hf) hlength, ?_⟩
      split
      · rename_i out' hwrite
        have hzero := (FieldStream.position_of_write hwrite).1
        exact ih (fun _ _ => by omega) (by omega)
      · exact allInRange_nil

end Reply

namespace Session

variable {ω : Type} [Platform ω]

/-- The strings of a configuration are in the store, and there is room for the name in the slot and in the
beacon. -/
def applyAccesses (s : Session) (reply : Reply) (board : Board ω) : List Access :=
  match reply with
  | .configured name ssid password =>
    [.slice s.scratch.cursor name.start name.length, .slice s.scratch.cursor ssid.start ssid.length,
      .slice s.scratch.cursor password.start password.length] ++
      match name.read? s.scratch with
      | some name => board.renameAccesses name
      | none => []
  | _ => []

def responseAccesses (s : Session) (reply : Reply) (next : Nat) (board : Board ω) : List Access :=
  reply.encodeAccesses s.limits.pulseWidth s.scratch next s.outbound ++
    match reply.encode s.limits.pulseWidth s.scratch next s.outbound with
    | (.ok _, _, outbound) =>
      outbound.buffer.filledAccess ::
        if outbound.data.isEmpty then s.applyAccesses reply board else []
    | (.error _, _, _) => []

def processAccesses (s : Session) (request : Request) (board : Board ω) : List Access :=
  match request with
  | .send frequency =>
    s.scratch.filledAccess :: board.station.transmitAccesses s.scratch.filled ++
      s.responseAccesses .sent 0 (board.transmit frequency s.scratch.filled)
  | .receive (some report) => s.responseAccesses (.captured report.count) 0 board
  | .receive none => []
  | .config name ssid password => s.responseAccesses (.configured name ssid password) 0 board

def runAccesses (s : Session) (board : Board ω) : List Access :=
  match s.conversation with
  | some ⟨_, .request reading⟩ => reading.accesses s.limits ⟨s.inbound, s.scratch⟩
  | some ⟨_, .process request⟩ => s.processAccesses request board
  | some ⟨_, .response reply next false⟩ => s.responseAccesses reply next board
  | _ => []

def receiveAccesses (s : Session) (data : List UInt8) (board : Board ω) : List Access :=
  match s.conversation with
  | some ⟨_, .request _⟩ =>
    s.inbound.feedAccesses data ++
      match s.inbound.feed data with
      | (.ok _, inbound) => runAccesses { s with inbound := inbound } board
      | (.error _, _) => []
  | _ => []

def sentAccesses (s : Session) (board : Board ω) : List Access :=
  match s.conversation with
  | some ⟨connection, .response reply next true⟩ =>
    runAccesses { s with conversation := some ⟨connection, .response reply next false⟩ } board
  | _ => []

def edgeAccesses (s : Session) (board : Board ω) : List Access :=
  board.station.captureAccesses s.scratch board.world

/-- The fault for which a conversation ends when the session is run. -/
def runFault? (s : Session) (board : Board ω) : Option Fault :=
  match s.step board with
  | (.error fault, _) => some fault
  | (.ok _, _) => none

def receiveFault? (s : Session) (data : List UInt8) (board : Board ω) : Option Fault :=
  match s.conversation with
  | some ⟨_, .request _⟩ =>
    match s.inbound.feed data with
    | (.ok _, inbound) => runFault? { s with inbound := inbound } board
    | (.error fault, _) => some fault
  | _ => none

def sentFault? (s : Session) (board : Board ω) : Option Fault :=
  match s.conversation with
  | some ⟨connection, .response reply next true⟩ =>
    runFault? { s with conversation := some ⟨connection, .response reply next false⟩ } board
  | _ => none

/-- Whether a session that came to another board may have failed so: a request is wrong, or the network refused
a piece of the reply to it. -/
def Excused {ω : Type} (s : Session) (board after : Board (Traced ω)) (fault : Fault) : Prop :=
  s.label = "Request" ∧ fault.OfRequest ∨
    s.label ≠ "Request" ∧ fault = .io ∧ ∃ connection data, s.connection? = some connection ∧
      after.world.sendings = board.world.sendings ++ [⟨connection, data, false⟩]

variable {config : Config} {s t : Session} {v : View} {reply : Reply} {next sent : Nat}
  {connection : Connection} {board after : Board ω} {fault : Fault}

/-- Whether a session can go on with a reply of which some pieces were sent. -/
structure Writes (config : Config) (s : Session) (reply : Reply) (next sent : Nat) : Prop where
  fits : s.Fits config
  drained : s.outbound.data = []
  supplied : View.Supplied config s.scratch.filled reply
  unsent : Unsent config.swapped
    ((reply.answer config.pulseWidth s.scratch.filled).fields config.pulseWidth) next
    s.outbound.position
    (((reply.answer config.pulseWidth s.scratch.filled).wire config).drop
      (sent * config.sendBufferLength))

theorem Shows.writes_first {request : Request} {kept : List UInt8}
    (h : s.Shows config (.process connection request kept))
    (hsupplied : View.Supplied config kept reply) : s.Writes config reply 0 0 := by
  obtain ⟨-, rfl, hposition⟩ := h.agrees
  refine ⟨h.fits, h.drained, hsupplied, ?_⟩
  rw [hposition, Nat.zero_mul, List.drop_zero, Answer.wire_eq_flatMap]
  exact Unsent.zero _ _

theorem Shows.writes_of_response {awaiting : Bool} (h : s.Shows config v)
    (hconversation : s.conversation = some ⟨connection, .response reply next awaiting⟩) :
    awaiting = true ∧ ∃ sent, s.Writes config reply next sent := by
  have hagrees := h.agrees
  cases v with
  | response current answer kept sent =>
      obtain ⟨index, hcurrent, rfl, hunsent⟩ := hagrees
      simp only [hcurrent, Option.some.injEq, Conversation.mk.injEq, Phase.response.injEq]
        at hconversation
      obtain ⟨-, rfl, rfl, rfl⟩ := hconversation
      exact ⟨rfl, sent, h.fits, h.drained, h.sound.1, hunsent⟩
  | ready => simp [hagrees.1] at hconversation
  | request current received =>
      obtain ⟨reading, hcurrent, -⟩ := hagrees
      simp [hcurrent] at hconversation
  | process current request kept => simp [hagrees.1] at hconversation

theorem Writes.with_conversation (h : s.Writes config reply next sent) {conversation : Option Conversation} :
    Writes config { s with conversation := conversation } reply next sent :=
  ⟨⟨h.fits.limits_eq, h.fits.intake_fits, h.fits.side_eq, h.fits.swapped_eq, h.fits.capacity_eq⟩,
    h.drained, h.supplied, h.unsent⟩

omit [Platform ω] in
theorem Writes.allInRange_applyAccesses (h : s.Writes config reply next sent) (board : Board ω) :
    AllInRange (s.applyAccesses reply board) := by
  have hsupplied := h.supplied
  cases reply with
  | sent => exact allInRange_nil
  | captured count => exact allInRange_nil
  | configured name ssid password =>
      obtain ⟨hname, hssid, hpassword⟩ := hsupplied
      rw [Buffer.length_filled] at hname hssid hpassword
      refine allInRange_append.mpr ⟨?_, ?_⟩
      · exact allInRange_cons.mpr ⟨hname, allInRange_cons.mpr ⟨hssid,
          allInRange_cons.mpr ⟨hpassword, allInRange_nil⟩⟩⟩
      · split
        · exact board.allInRange_renameAccesses _
        · exact allInRange_nil

omit [Platform ω] in
theorem Writes.allInRange_responseAccesses (hconfig : config.Valid)
    (h : s.Writes config reply next sent) (board : Board ω) :
    AllInRange (s.responseAccesses reply next board) := by
  have hwidth : s.limits.pulseWidth = config.pulseWidth := by rw [h.fits.limits_eq]; rfl
  rw [responseAccesses, hwidth]
  refine allInRange_append.mpr ⟨?_, ?_⟩
  · exact Reply.allInRange_encodeAccesses (View.backed_of_supplied hconfig h.supplied)
      h.unsent.position_le
  · split
    · refine allInRange_cons.mpr ⟨Buffer.inRange_filledAccess _, ?_⟩
      split
      · exact h.allInRange_applyAccesses board
      · exact allInRange_nil
    · exact allInRange_nil

/-- Going on with a reply fails only if the network refuses the next piece. -/
theorem Writes.refused_of_stepResponse (hconfig : config.Valid) (h : s.Writes config reply next sent)
    (hstep : s.stepResponse connection reply next board = (.error fault, t, after)) :
    fault = .io ∧ t.conversation = s.conversation ∧
      ∃ data, Platform.send connection data board.world = (false, after.world) := by
  obtain ⟨next', out, hencode, -, hpiece, -⟩ :=
    h.fits.exists_encode_eq hconfig h.drained h.supplied h.unsent
  simp only [stepResponse, hencode] at hstep
  by_cases hempty : View.piece config reply s.scratch.filled sent = []
  · -- If nothing was written there was nothing to write.
    have hrest := (View.piece_eq_nil_iff hconfig).mp hempty
    have hdone : out.data.isEmpty = true := by rw [hpiece, hempty]; rfl
    simp [hrest, hdone] at hstep
  · have hsome : ¬out.data.isEmpty = true := by rwa [List.isEmpty_iff, hpiece]
    simp only [if_neg hsome] at hstep
    cases hsend : Platform.send connection out.data board.world with
    | mk accepted world =>
        rw [hsend] at hstep
        cases accepted with
        | true => simp at hstep
        | false =>
            simp only [Prod.mk.injEq, Except.error.injEq] at hstep
            obtain ⟨rfl, rfl, rfl⟩ := hstep
            exact ⟨rfl, rfl, out.data, hsend⟩

theorem Shows.exists_reading {reading : Request.Reading} (h : s.Shows config v)
    (hconversation : s.conversation = some ⟨connection, .request reading⟩) :
    s.label = "Request" ∧ ∃ received, reading.Shows config received ⟨s.inbound, s.scratch⟩ := by
  have hlabel : s.label = "Request" := by
    rw [label, hconversation]
    rfl
  refine ⟨hlabel, ?_⟩
  have hagrees := h.agrees
  cases v with
  | request current received =>
      obtain ⟨begun, hcurrent, hreading, -⟩ := hagrees
      simp only [hcurrent, Option.some.injEq, Conversation.mk.injEq, Phase.request.injEq]
        at hconversation
      obtain ⟨-, rfl⟩ := hconversation
      exact ⟨received, hreading⟩
  | ready => simp [hagrees.1] at hconversation
  | process current request kept => simp [hagrees.1] at hconversation
  | response current reply kept sent =>
      obtain ⟨next, hcurrent, -⟩ := hagrees
      simp [hcurrent] at hconversation

theorem Shows.ready {reading : Request.Reading} (hconfig : config.Valid) (h : s.Shows config v)
    (hconversation : s.conversation = some ⟨connection, .request reading⟩) :
    reading.Ready config ⟨s.inbound, s.scratch⟩ := by
  obtain ⟨-, received, hreading⟩ := h.exists_reading hconversation
  have hrefills : Request.Reading.Refills [] s.inbound s.inbound :=
    ⟨rfl, rfl, rfl, rfl, rfl, Request.Reading.unconsumed_of_shows hreading⟩
  exact Request.Reading.ready_of_shows hconfig hreading hrefills

theorem Shows.ready_of_feed {reading : Request.Reading} (hconfig : config.Valid)
    (h : s.Shows config v) (hconversation : s.conversation = some ⟨connection, .request reading⟩)
    {data : List UInt8} {inbound : FieldStream} (hfeed : s.inbound.feed data = (.ok (), inbound)) :
    reading.Ready config ⟨inbound, s.scratch⟩ := by
  obtain ⟨-, received, hreading⟩ := h.exists_reading hconversation
  rcases Nat.lt_or_ge config.receiveBufferLength data.length with hlt | hle
  · obtain ⟨fault, refused, hrefused, -⟩ := Request.Reading.feed_of_length_lt hreading hlt
    simp [hfeed] at hrefused
  · obtain ⟨fed, hfed, hrefills⟩ := Request.Reading.feed_of_shows hreading hle
    simp only [hfeed, Prod.mk.injEq, true_and] at hfed
    subst hfed
    exact Request.Reading.ready_of_shows hconfig hreading hrefills

theorem Shows.allInRange_processAccesses {request : Request} {kept : List UInt8}
    (hconfig : config.Valid) (h : s.Shows config (.process connection request kept))
    (board : Board ω) : AllInRange (s.processAccesses request board) := by
  cases request with
  | send frequency =>
      have hsupplied : View.Supplied config kept .sent := trivial
      refine allInRange_cons.mpr ⟨Buffer.inRange_filledAccess _, ?_⟩
      refine allInRange_append.mpr ⟨Station.allInRange_transmitAccesses _ _, ?_⟩
      exact (h.writes_first hsupplied).allInRange_responseAccesses hconfig _
  | receive report =>
      cases report with
      | none => exact allInRange_nil
      | some report =>
          have hsupplied : View.Supplied config kept (.captured report.count) := h.sound
          exact (h.writes_first hsupplied).allInRange_responseAccesses hconfig board
  | config name ssid password =>
      have hsupplied : View.Supplied config kept (.configured name ssid password) := h.sound
      exact (h.writes_first hsupplied).allInRange_responseAccesses hconfig board

theorem Shows.allInRange_runAccesses (hconfig : config.Valid) (h : s.Shows config v) (board : Board ω) :
    AllInRange (s.runAccesses board) := by
  have hagrees := h.agrees
  cases v with
  | ready =>
      simp only [runAccesses, hagrees.1]
      exact allInRange_nil
  | request connection received =>
      obtain ⟨reading, hconversation, -⟩ := hagrees
      simp only [runAccesses, hconversation, h.fits.limits_eq]
      exact (h.ready hconfig hconversation).allInRange_accesses hconfig
  | process connection request kept =>
      simp only [runAccesses, hagrees.1]
      exact h.allInRange_processAccesses hconfig board
  | response connection reply kept sent =>
      obtain ⟨next, hconversation, -⟩ := hagrees
      simp only [runAccesses, hconversation]
      exact allInRange_nil

theorem Shows.allInRange_receiveAccesses (hconfig : config.Valid) (h : s.Shows config v)
    (data : List UInt8) (board : Board ω) : AllInRange (s.receiveAccesses data board) := by
  rw [receiveAccesses]
  split
  · rename_i hconversation
    refine allInRange_append.mpr ⟨FieldStream.allInRange_feedAccesses _ _, ?_⟩
    split
    · rename_i hfeed
      simp only [runAccesses, hconversation, h.fits.limits_eq]
      exact (h.ready_of_feed hconfig hconversation hfeed).allInRange_accesses hconfig
    · exact allInRange_nil
  · exact allInRange_nil

theorem Shows.allInRange_sentAccesses (hconfig : config.Valid) (h : s.Shows config v) (board : Board ω) :
    AllInRange (s.sentAccesses board) := by
  rw [sentAccesses]
  split
  · rename_i hconversation
    obtain ⟨-, sent, hwrites⟩ := h.writes_of_response hconversation
    exact hwrites.with_conversation.allInRange_responseAccesses hconfig board
  · exact allInRange_nil

theorem allInRange_edgeAccesses (s : Session) (hholds : v.Holds config board) :
    AllInRange (s.edgeAccesses board) :=
  Station.allInRange_captureAccesses hholds.cursor_eq _ _

theorem exists_of_runFault? (h : s.runFault? board = some fault) :
    ∃ t after, s.step board = (.error fault, t, after) ∧ s.run board = (.done, t.release after) := by
  rw [runFault?] at h
  split at h
  · rename_i cause x hstep
    simp only [Option.some.injEq] at h
    subst h
    exact ⟨x.1, x.2, hstep, run_of_error hstep⟩
  · simp at h

theorem ofRequest_of_runFault? (hconfig : config.Valid) (hlimits : s.limits = Request.limits config)
    {reading : Request.Reading} (hready : reading.Ready config ⟨s.inbound, s.scratch⟩)
    (hconversation : s.conversation = some ⟨connection, .request reading⟩)
    (h : s.runFault? board = some fault) : fault.OfRequest := by
  obtain ⟨t, after, hstep, -⟩ := exists_of_runFault? h
  obtain ⟨limits, inbound, outbound, scratch, conversation⟩ := s
  dsimp only at hlimits hconversation
  subst hlimits hconversation
  simp only [step, stepRequest] at hstep
  split at hstep
  · simp at hstep
  · simp at hstep
  · rename_i hresume
    simp only [Prod.mk.injEq, Except.error.injEq] at hstep
    exact hstep.1 ▸ hready.ofRequest_of_resume hconfig hresume

theorem sendings_release (s : Session) (board : Board (Traced ω)) :
    (s.release board).2.world.sendings = board.world.sendings := by
  cases hconversation : s.conversation with
  | none =>
      simp only [release, hconversation]
      exact board.adds_resetStation.sendings_eq (by simp [Call.IsSend])
  | some conversation =>
      rw [release_eq_of_conversation hconversation]
      exact View.sendings_dismiss _ board

theorem Writes.excused_run {before board : Board (Traced ω)} (hconfig : config.Valid)
    (h : s.Writes config reply next sent) {phase : Phase}
    (hconversation : s.conversation = some ⟨connection, phase⟩) (hlabel : s.label ≠ "Request")
    (hstep : s.step before = s.stepResponse connection reply next board)
    (hsendings : board.world.sendings = before.world.sendings)
    (hfault : s.runFault? before = some fault) : s.Excused before (s.run before).2.2 fault := by
  obtain ⟨t, after, hfails, hrun⟩ := exists_of_runFault? hfault
  obtain ⟨rfl, -, data, hsend⟩ := h.refused_of_stepResponse hconfig (hstep.symm.trans hfails)
  have hrefused := Traced.sendings_send connection data board.world
  rw [hsend, hsendings] at hrefused
  have hconnection : s.connection? = some connection := by
    rw [connection?, hconversation]
    rfl
  refine .inr ⟨hlabel, rfl, connection, data, hconnection, ?_⟩
  rw [hrun, sendings_release]
  exact hrefused

theorem Shows.excused_process {request : Request} {kept : List UInt8} {board : Board (Traced ω)}
    (hconfig : config.Valid) (h : s.Shows config (.process connection request kept))
    (hfault : s.runFault? board = some fault) : s.Excused board (s.run board).2.2 fault := by
  have hconversation := h.agrees.1
  have hlabel : s.label ≠ "Request" := by rw [h.label_eq]; simp [View.label]
  cases request with
  | send frequency =>
      have hsupplied : View.Supplied config kept .sent := trivial
      have hquiet : (board.transmit frequency s.scratch.filled).world.sendings =
          board.world.sendings :=
        (board.adds_transmit frequency s.scratch.filled).sendings_eq
          fun _ => Waveform.not_isSend_of_mem_calls
      refine (h.writes_first hsupplied).excused_run hconfig hconversation hlabel ?_ hquiet hfault
      simp only [step, hconversation, stepProcess]
  | receive report =>
      cases report with
      | none =>
          obtain ⟨t, after, hstep, -⟩ := exists_of_runFault? hfault
          simp only [step, hconversation, stepProcess] at hstep
          split at hstep
          · simp at hstep
          · simp at hstep
      | some report =>
          have hsupplied : View.Supplied config kept (.captured report.count) := h.sound
          refine (h.writes_first hsupplied).excused_run hconfig hconversation hlabel ?_ rfl hfault
          simp only [step, hconversation, stepProcess]
  | config name ssid password =>
      have hsupplied : View.Supplied config kept (.configured name ssid password) := h.sound
      refine (h.writes_first hsupplied).excused_run hconfig hconversation hlabel ?_ rfl hfault
      simp only [step, hconversation, stepProcess]

theorem Shows.excused_run {board : Board (Traced ω)} (hconfig : config.Valid) (h : s.Shows config v)
    (hfault : s.runFault? board = some fault) : s.Excused board (s.run board).2.2 fault := by
  have hagrees := h.agrees
  cases v with
  | ready => simp [runFault?, step, hagrees.1] at hfault
  | request connection received =>
      obtain ⟨reading, hconversation, -⟩ := hagrees
      have hready := h.ready hconfig hconversation
      exact .inl ⟨(h.exists_reading hconversation).1,
        ofRequest_of_runFault? hconfig h.fits.limits_eq hready hconversation hfault⟩
  | process connection request kept => exact h.excused_process hconfig hfault
  | response connection reply kept sent =>
      obtain ⟨next, hconversation, -⟩ := hagrees
      simp [runFault?, step, hconversation] at hfault

theorem Shows.excused_receive {board : Board (Traced ω)} (hconfig : config.Valid)
    (h : s.Shows config v) {data : List UInt8} (hfault : s.receiveFault? data board = some fault) :
    s.Excused board (s.receive data board).2.2 fault := by
  rw [receiveFault?] at hfault
  split at hfault
  · rename_i connection reading hconversation
    obtain ⟨hlabel, received, hreading⟩ := h.exists_reading hconversation
    refine .inl ⟨hlabel, ?_⟩
    split at hfault
    · rename_i inbound hfeed
      have hready := h.ready_of_feed hconfig hconversation hfeed
      exact ofRequest_of_runFault? (s := { s with inbound := inbound }) hconfig h.fits.limits_eq hready
        hconversation hfault
    · -- Bytes are refused only for being more than the stream has room for.
      rename_i hfeed
      rcases Nat.lt_or_ge config.receiveBufferLength data.length with hlt | hle
      · obtain ⟨buffer, hrefused, -⟩ := FieldStream.exists_feed_of_lt h.fits.intake_fits.side_eq
          (by rw [h.fits.intake_fits.capacity_eq]; exact Nat.lt_add_right _ hlt)
        rw [show s.inbound.feed data = _ from hrefused] at hfeed
        simp only [Prod.mk.injEq, Except.error.injEq] at hfeed
        simp only [Option.some.injEq] at hfault
        rw [← hfault, ← hfeed.1]
        trivial
      · obtain ⟨fed, hfed, -⟩ := Request.Reading.feed_of_shows hreading hle
        simp [hfed] at hfeed
  · simp at hfault

theorem Shows.excused_sent {board : Board (Traced ω)} (hconfig : config.Valid) (h : s.Shows config v)
    (hfault : s.sentFault? board = some fault) : s.Excused board (s.sent board).2.2 fault := by
  rw [sentFault?] at hfault
  split at hfault
  · rename_i connection reply next hconversation
    obtain ⟨-, sent, hwrites⟩ := h.writes_of_response hconversation
    have hexcused := hwrites.with_conversation.excused_run hconfig rfl (by simp [label, Phase.label])
      rfl rfl hfault
    simp only [Session.sent, hconversation]
    simp only [Excused, label, connection?, hconversation] at hexcused ⊢
    exact hexcused
  · simp at hfault

end Session

end Infrared
