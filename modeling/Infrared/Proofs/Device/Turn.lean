import Infrared.Proofs.Device.Reception
import Infrared.Proofs.Pieces

namespace Infrared

namespace Device

variable {ω : Type}

/-- Whether an operation confirms a send on a connection. -/
def Operation.Confirms (connection : Connection) : Operation ω → Prop
  | .handle (.sent other) => other = connection
  | _ => False

instance (connection : Connection) (op : Operation ω) : Decidable (op.Confirms connection) := by
  cases op with
  | handle event =>
      cases event with
      | sent other => exact inferInstanceAs (Decidable (other = connection))
      | _ => exact isFalse id
  | _ => exact isFalse id

/-- The pieces that a reply is sent in. -/
def pieces (config : Config) (answer : Answer) : List (List UInt8) :=
  Bench.cut config.sendBufferLength (answer.wire config)

/-- Pieces that were sent on a connection and taken. -/
def sendingsOf (connection : Connection) (pieces : List (List UInt8)) : List Sending :=
  pieces.map fun data => ⟨connection, data, true⟩

namespace View

/-- What a view answers, as far as it is settled: the answer to a request to record a signal is settled once
the signal was recorded. -/
def answer? (v : View ω) : Option Answer :=
  match v.session with
  | .process _ (.send _) _ => some .sent
  | .process _ (.receive (some report)) kept =>
    some (.captured (v.config.pulseWidth.decodeMany report.count kept))
  | .process _ (.config _ _ _) _ => some .configured
  | .response _ reply kept _ => some (reply.answer v.config.pulseWidth kept)
  | _ => none

/-- Whether a conversation has sent what it should have after a number of confirmations. -/
def Answering (connection : Connection) (before : List Sending) (confirmed : Nat)
    (v : View (Traced ω)) : Prop :=
  match v.session with
  | .process current _ _ =>
    current = connection ∧ confirmed = 0 ∧ v.board.world.sendings = before
  | .response current reply kept sent =>
    current = connection ∧ sent = confirmed + 1 ∧
      v.board.world.sendings = before ++ sendingsOf connection
        ((pieces v.config (reply.answer v.config.pulseWidth kept)).take sent)
  | _ => False

/-- Whether a conversation ended because the last piece of its reply was confirmed. -/
structure Finished (connection : Connection) (before : List Sending) (confirmed : Nat)
    (v w : View (Traced ω)) (op : Operation ω) : Prop where
  confirms : op = .handle (.sent connection)
  exists_answer : ∃ answer, v.answer? = some answer ∧
    v.board.world.sendings = before ++ sendingsOf connection (pieces v.config answer) ∧
    confirmed + 1 = (pieces v.config answer).length
  exists_calls : ∃ calls,
    (∀ call ∈ calls, ∃ name ssid password, call = .configured name ssid password) ∧
      Traced.Adds (calls ++ [.close connection, .disableInterrupts]) v.board.world w.board.world

theorem label_ne_of_answering {connection : Connection} {before : List Sending} {confirmed : Nat}
    {v : View (Traced ω)} (h : v.Answering connection before confirmed) :
    v.session.label ≠ "Request" ∧ v.session ≠ .ready ∧
      v.session.connection? = some connection := by
  unfold Answering at h
  cases hv : v.session with
  | process current request kept =>
      rw [hv] at h
      exact ⟨by simp [Session.View.label], by simp, by rw [← h.1]; rfl⟩
  | response current reply kept sent =>
      rw [hv] at h
      exact ⟨by simp [Session.View.label], by simp, by rw [← h.1]; rfl⟩
  | ready => rw [hv] at h; exact absurd h id
  | request current bytes => rw [hv] at h; exact absurd h id

theorem Answering.of_session_eq {connection : Connection} {before : List Sending} {confirmed : Nat}
    {v w : View (Traced ω)} (h : v.Answering connection before confirmed)
    (hconfig : w.config = v.config) (hsession : w.session = v.session)
    (hsendings : w.board.world.sendings = v.board.world.sendings) :
    w.Answering connection before confirmed ∧ w.answer? = v.answer? := by
  unfold Answering answer? at *
  rw [hconfig, hsession, hsendings]
  exact ⟨h, rfl⟩

variable {config : Config} {connection : Connection} {before : List Sending} {confirmed : Nat}
  {v : View (Traced ω)}

/-- What becomes of a conversation in one operation: it goes on, or it ended with its reply, or it was ended
by its client, by the service or by a send that was refused. -/
inductive Turn (connection : Connection) (before : List Sending) (confirmed : Nat)
    (v : View (Traced ω)) (op : Operation ω) (w : View (Traced ω)) : Prop
  | goesOn (answering : w.Answering connection before
        (confirmed + if op.Confirms connection ∧ v.session.label = "Response" then 1 else 0))
      (settled : ∀ answer, v.answer? = some answer → w.answer? = some answer)
      (recorded : v.answer? = none → w.answer? ≠ none → op = .handle .edge)
  | finished (ready : w.session = .ready) (h : Finished connection before confirmed v w op)
  | cutOff (ready : w.session = .ready)
      (h : op = .stop ∨ op = .handle (.disconnect connection) ∨
        ∃ data, w.board.world.sendings = v.board.world.sendings ++ [⟨connection, data, false⟩])

theorem Turn.goesOn_of_connection? {op : Operation ω} {w : View (Traced ω)}
    (h : Turn connection before confirmed v op w) (hw : w.session.connection? = some connection) :
    w.Answering connection before
        (confirmed + if op.Confirms connection ∧ v.session.label = "Response" then 1 else 0) ∧
      (∀ answer, v.answer? = some answer → w.answer? = some answer) ∧
      (v.answer? = none → w.answer? ≠ none → op = .handle .edge) := by
  cases h with
  | goesOn hanswering hsettled hrecorded => exact ⟨hanswering, hsettled, hrecorded⟩
  | finished hready _ =>
      rw [hready] at hw
      simp [Session.View.connection?] at hw
  | cutOff hready _ =>
      rw [hready] at hw
      simp [Session.View.connection?] at hw

theorem Turn.ended_of_connection? {op : Operation ω} {w : View (Traced ω)}
    (h : Turn connection before confirmed v op w) (hw : w.session.connection? ≠ some connection) :
    Finished connection before confirmed v w op ∨ op = .stop ∨
      op = .handle (.disconnect connection) ∨
        ∃ data, w.board.world.sendings = v.board.world.sendings ++ [⟨connection, data, false⟩] := by
  cases h with
  | goesOn hanswering _ _ => exact absurd (label_ne_of_answering hanswering).2.2 hw
  | finished _ hfinished => exact .inl hfinished
  | cutOff _ hcut => exact .inr hcut

theorem turn_of_session_eq {op : Operation ω} {w : View (Traced ω)}
    (h : v.Answering connection before confirmed)
    (hop : ¬(op.Confirms connection ∧ v.session.label = "Response"))
    (hconfig : w.config = v.config) (hsession : w.session = v.session)
    (hsendings : w.board.world.sendings = v.board.world.sendings) :
    Turn connection before confirmed v op w := by
  obtain ⟨hanswering, hanswer⟩ := h.of_session_eq hconfig hsession hsendings
  refine .goesOn ?_ ?_ ?_
  · rw [if_neg hop]
    exact hanswering
  · intro answer hsome
    rw [hanswer, hsome]
  · intro hnone hsome
    exact absurd (hanswer.trans hnone) hsome

theorem sendings_of_answering (hconfig : v.config.Valid) (hsound : v.session.Sound v.config)
    (h : v.Answering connection before confirmed) :
    v.session.label = "Process" ∧ confirmed = 0 ∧ v.board.world.sendings = before ∨
      v.session.label = "Response" ∧ ∃ answer, v.answer? = some answer ∧
        confirmed < (pieces v.config answer).length ∧
        v.board.world.sendings =
          before ++ sendingsOf connection ((pieces v.config answer).take (confirmed + 1)) := by
  have hsend := hconfig.headLength_le_send
  simp only [Packet.headLength] at hsend
  cases hv : v.session with
  | process current request kept =>
      simp only [Answering, hv] at h
      exact .inl ⟨rfl, h.2⟩
  | response current reply kept sent =>
      simp only [Answering, hv] at h
      obtain ⟨-, rfl, hsendings⟩ := h
      rw [hv] at hsound
      obtain ⟨-, -, hlt⟩ := hsound
      rw [Nat.add_sub_cancel] at hlt
      refine .inr ⟨rfl, _, by rw [answer?, hv], ?_, hsendings⟩
      exact Bench.lt_length_cut (by omega) hlt
  | ready => simp [Answering, hv] at h
  | request current bytes => simp [Answering, hv] at h

variable [Platform ω]

theorem take_pieces_succ (hconfig : config.Valid) {reply : Reply} {kept : List UInt8} {sent : Nat}
    (h : Session.View.piece config reply kept sent ≠ []) :
    (pieces config (reply.answer config.pulseWidth kept)).take (sent + 1) =
      (pieces config (reply.answer config.pulseWidth kept)).take sent ++
        [Session.View.piece config reply kept sent] := by
  have hsend := hconfig.headLength_le_send
  simp only [Packet.headLength] at hsend
  exact Bench.take_cut_succ (by omega) (Session.View.lt_length_of_piece_ne_nil hconfig h)

theorem take_pieces_eq (hconfig : config.Valid) {reply : Reply} {kept : List UInt8} {sent : Nat}
    (hsound : Session.View.Sound config (.response connection reply kept sent))
    (h : Session.View.piece config reply kept sent = []) :
    (pieces config (reply.answer config.pulseWidth kept)).take sent =
        pieces config (reply.answer config.pulseWidth kept) ∧
      sent = (pieces config (reply.answer config.pulseWidth kept)).length := by
  obtain ⟨-, hpos, hlt⟩ := hsound
  have hsend := hconfig.headLength_le_send
  simp only [Packet.headLength] at hsend
  rw [Session.View.piece_eq_nil_iff hconfig, List.drop_eq_nil_iff] at h
  obtain ⟨hall, hle⟩ := Bench.take_cut_of_le (by omega) h
  have hfew := Bench.lt_length_cut (by omega) hlt
  refine ⟨hall, ?_⟩
  rw [pieces]
  omega

theorem turn_first (hconfig : v.config.Valid) {op : Operation ω} (reply : Reply)
    (kept : List UInt8) (board : Board (Traced ω)) {w : View (Traced ω)}
    (h : v.Answering connection before confirmed) (hlabel : v.session.label = "Process")
    (hanswer : v.answer? = some (reply.answer v.config.pulseWidth kept))
    (hboard : board.world.sendings = v.board.world.sendings)
    (hw : w = View.after { v with pending := false }
      (Session.View.respond v.config connection reply kept 0 board)) :
    Turn connection before confirmed v op w := by
  have hbefore : confirmed = 0 ∧ v.board.world.sendings = before := by
    unfold Answering at h
    cases hv : v.session with
    | process current request kept =>
        rw [hv] at h
        exact h.2
    | _ => simp [hv, Session.View.label] at hlabel
  obtain ⟨rfl, hsendings⟩ := hbefore
  subst hw
  rcases Session.View.respond_cases v.config connection reply kept 0 board with
    ⟨hpiece, hview, hsent⟩ | ⟨hview, hrefused⟩ | ⟨hpiece, -⟩
  · refine .goesOn ?_ ?_ ?_
    · simp only [Answering, View.after, hview, hlabel]
      refine ⟨trivial, by simp, ?_⟩
      rw [hsent, hboard, hsendings, take_pieces_succ hconfig hpiece]
      rfl
    · intro answer hsome
      rw [hanswer] at hsome
      simp only [answer?, View.after, hview]
      exact hsome
    · intro hnone
      simp [hanswer] at hnone
  · refine .cutOff hview (.inr (.inr ⟨Session.View.piece v.config reply kept 0, ?_⟩))
    rw [← hboard]
    exact hrefused
  · exact absurd hpiece (Session.View.piece_zero_ne_nil hconfig reply kept)

theorem turn_next (hconfig : v.config.Valid) {reply : Reply} {kept : List UInt8} {sent : Nat}
    {w : View (Traced ω)} (h : v.Answering connection before confirmed)
    (hv : v.session = .response connection reply kept sent)
    (hsound : v.session.Sound v.config)
    (hw : w = v.after (Session.View.respond v.config connection reply kept sent v.board)) :
    Turn connection before confirmed v (.handle (.sent connection)) w := by
  have hanswer : v.answer? = some (reply.answer v.config.pulseWidth kept) := by
    simp only [answer?, hv]
  have hconfirms : (Operation.handle (.sent connection) : Operation ω).Confirms connection := rfl
  simp only [Answering, hv] at h
  obtain ⟨-, rfl, hsendings⟩ := h
  rw [hv] at hsound
  subst hw
  rcases Session.View.respond_cases v.config connection reply kept (confirmed + 1) v.board with
    ⟨hpiece, hview, hsent⟩ | ⟨hview, hrefused⟩ | ⟨hpiece, hview, calls, hcalls, hadds⟩
  · refine .goesOn ?_ ?_ ?_
    · simp only [Answering, View.after, hview, hv, Session.View.label, hconfirms]
      refine ⟨trivial, by simp, ?_⟩
      rw [hsent, hsendings, take_pieces_succ hconfig hpiece, sendingsOf, sendingsOf,
        List.map_append, List.append_assoc]
      rfl
    · intro answer hsome
      rw [hanswer] at hsome
      simp only [answer?, View.after, hview]
      exact hsome
    · intro hnone
      simp [hanswer] at hnone
  · exact .cutOff hview (.inr (.inr ⟨_, hrefused⟩))
  · obtain ⟨hall, hlength⟩ := take_pieces_eq hconfig hsound hpiece
    rw [hall] at hsendings
    exact .finished hview ⟨rfl, ⟨_, hanswer, hsendings, hlength⟩, calls, hcalls, hadds⟩

theorem turn_runPending (hkeeps : v.Keeps) (h : v.Answering connection before confirmed) :
    Turn connection before confirmed v .runPending v.runPending.2 := by
  rw [runPending]
  split
  · rename_i hpending
    have hwaits := hkeeps.waits
    rw [hpending] at hwaits
    obtain ⟨harmed, current, request, kept, hv⟩ := hwaits.eq_process_of_pending
    have hlabel : v.session.label = "Process" := by rw [hv]; rfl
    have hconnection := (label_ne_of_answering h).2.2
    rw [hv, Session.View.connection?, Option.some.injEq] at hconnection
    subst hconnection
    cases request with
    | send frequency =>
        refine turn_first hkeeps.valid .sent kept (v.board.transmit frequency kept) h hlabel ?_ ?_ ?_
        · simp only [answer?, hv]
          rfl
        · exact (v.board.adds_transmit frequency kept).sendings_eq
            fun _ => Waveform.not_isSend_of_mem_calls
        · rw [hv]
          rfl
    | config name ssid password =>
        refine turn_first hkeeps.valid (.configured name ssid password) kept v.board h hlabel ?_ rfl ?_
        · simp only [answer?, hv]
          rfl
        · rw [hv]
          rfl
    | receive report =>
        cases report with
        | some report =>
            refine turn_first hkeeps.valid (.captured report.count) kept v.board h hlabel ?_ rfl ?_
            · simp only [answer?, hv]
              rfl
            · rw [hv]
              rfl
        | none =>
            have hoff : ¬v.board.station.armed = true := by simp [harmed]
            refine turn_of_session_eq h (fun hconfirms => hconfirms.1) rfl ?_ ?_
            · simp only [after, hv, Session.View.run]
            · simp only [after, hv, Session.View.run, if_neg hoff]
              apply v.board.adds_armCapture.sendings_eq
              simp [Call.IsSend]
  · exact turn_of_session_eq h (fun hconfirms => hconfirms.1) rfl rfl rfl

theorem turn_edge (hkeeps : v.Keeps) (h : v.Answering connection before confirmed) :
    Turn connection before confirmed v (.handle .edge) (v.handle .edge) := by
  have hsendings : (v.board.capture (Buffer.new v.config.scratchLength)).2.1.world.sendings =
      v.board.world.sendings := by
    obtain ⟨count, hadds⟩ := v.board.exists_adds_capture (Buffer.new v.config.scratchLength)
    apply hadds.sendings_eq
    intro call hcall
    rcases List.mem_cons.mp hcall with rfl | hcall
    · exact id
    · exact Station.not_isSend_of_mem_samples hcall
  cases harmed : v.board.station.armed with
  | false =>
      rw [Board.capture_of_not_armed harmed] at hsendings
      have hedge : v.handle .edge = { v with board := v.board.tell .disableInterrupts } := by
        simp only [handle, Session.View.edge, Board.capture_of_not_armed harmed, after, pendingAfter]
      rw [hedge]
      exact turn_of_session_eq h (fun hconfirms => hconfirms.1) rfl rfl hsendings
  | true =>
      -- A capture is armed for nobody but a request that has no report yet.
      obtain ⟨-, -, current, hv⟩ := hkeeps.waits.eq_process_of_armed harmed
      obtain ⟨report, hreport, -⟩ :=
        Board.capture_of_armed harmed (Buffer.new v.config.scratchLength)
      rcases hcapture : v.board.capture (Buffer.new v.config.scratchLength) with ⟨got, board, store⟩
      rw [hcapture] at hreport hsendings
      dsimp only at hreport hsendings
      subst hreport
      have hedge : (v.handle .edge).session =
            .process current (.receive (some report)) store.filled ∧
          (v.handle .edge).board = board := by
        simp only [handle, hv, Session.View.edge, hcapture, after]
        exact ⟨trivial, trivial⟩
      simp only [Answering, hv] at h
      refine .goesOn ?_ ?_ ?_
      · rw [if_neg fun hconfirms => hconfirms.1]
        simp only [Answering, hedge.1, hedge.2, hsendings]
        exact h
      · intro answer hsome
        simp [answer?, hv] at hsome
      · exact fun _ _ => rfl

theorem handle_sent_of_label_ne {ω : Type} [Platform ω] {v : View ω}
    (h : v.session.label ≠ "Response") (connection : Connection) :
    v.handle (.sent connection) = v := by
  have hsame : v.after (v.session.sent v.config v.board) = v := by
    cases hv : v.session with
    | response current reply kept sent => exact absurd (by rw [hv]; rfl) h
    | ready => simp only [Session.View.sent, after, pendingAfter, ← hv]
    | request current bytes => simp only [Session.View.sent, after, pendingAfter, ← hv]
    | process current request kept => simp only [Session.View.sent, after, pendingAfter, ← hv]
  simp only [handle, hsame, ite_self]

theorem handle_of_ne {other : Connection} (h : v.Answering connection before confirmed)
    (hother : other ≠ connection) :
    v.handle (.sent other) = v ∧ v.handle (.disconnect other) = v := by
  have hconnection := (label_ne_of_answering h).2.2
  have hcurrent : v.isCurrent other = false := by
    simp [isCurrent, hconnection, Ne.symm hother]
  constructor
  · simp [handle, hcurrent]
  · simp [handle, hcurrent]

theorem turn_sent (hconfig : v.config.Valid) (hsound : v.session.Sound v.config)
    (h : v.Answering connection before confirmed) (other : Connection) :
    Turn connection before confirmed v (.handle (.sent other)) (v.handle (.sent other)) := by
  obtain ⟨hlabel, hready, hconnection⟩ := label_ne_of_answering h
  by_cases hother : other = connection
  · subst hother
    have hcurrent : v.isCurrent other = true := by simp [isCurrent, hconnection]
    cases hv : v.session with
    | response current reply kept sent =>
        have hsame : current = other := by simpa [hv, Session.View.connection?] using hconnection
        subst hsame
        refine turn_next hconfig h hv hsound ?_
        simp only [handle, hcurrent, if_true, hv, Session.View.sent]
    | process current request kept =>
        have hnot : v.session.label ≠ "Response" := by simp [hv, Session.View.label]
        rw [handle_sent_of_label_ne hnot]
        exact turn_of_session_eq h (fun hconfirms => hnot hconfirms.2) rfl rfl rfl
    | ready => exact absurd hv hready
    | request current bytes => exact absurd (by rw [hv]; rfl) hlabel
  · rw [(handle_of_ne h hother).1]
    exact turn_of_session_eq h (fun hconfirms => hother hconfirms.1) rfl rfl rfl

theorem turn_disconnect (h : v.Answering connection before confirmed) (other : Connection) :
    Turn connection before confirmed v (.handle (.disconnect other)) (v.handle (.disconnect other)) := by
  by_cases hother : other = connection
  · subst hother
    have hcurrent : v.isCurrent other = true := by
      simp [isCurrent, (label_ne_of_answering h).2.2]
    have hdisconnect : (v.handle (.disconnect other)).session = .ready := by
      simp [handle, hcurrent]
    exact .cutOff hdisconnect (.inr (.inl rfl))
  · rw [(handle_of_ne h hother).2]
    exact turn_of_session_eq h (fun hconfirms => hconfirms.1) rfl rfl rfl

theorem not_isSend_of_mem_tickCalls {beacon : Beacon} {call : Call} (h : call ∈ beacon.tickCalls) :
    ¬call.IsSend := by
  rw [Beacon.tickCalls] at h
  split at h
  · split at h
    · simp only [List.nil_append, List.mem_singleton] at h
      subst h
      exact id
    · simp only [List.cons_append, List.nil_append, List.mem_cons, List.not_mem_nil, or_false] at h
      rcases h with rfl | rfl
      · exact id
      · exact id
  · simp at h

/-- Every operation is a turn of the conversation. -/
theorem turn_perform (hkeeps : v.Keeps) (hsound : v.session.Sound v.config)
    (h : v.Answering connection before confirmed) (op : Operation ω) :
    Turn connection before confirmed v op (v.perform op).2 := by
  obtain ⟨hlabel, hready, hconnection⟩ := label_ne_of_answering h
  have hrunning := hkeeps.running_of_ne_ready hready
  cases op with
  | setListener => exact turn_of_session_eq h (fun hconfirms => hconfirms.1) rfl rfl rfl
  | setName name =>
      refine turn_of_session_eq h (fun hconfirms => hconfirms.1) rfl rfl ?_
      exact congrArg Traced.sendings (v.board.setName_eq name).2
  | generateName chip =>
      refine turn_of_session_eq h (fun hconfirms => hconfirms.1) rfl rfl ?_
      exact congrArg Traced.sendings (v.board.generateName_eq chip).2
  | start =>
      have hstart : v.start = (.error .busy, v) := by rw [start, if_pos hrunning]
      simp only [perform, hstart]
      exact turn_of_session_eq h (fun hconfirms => hconfirms.1) rfl rfl rfl
  | stop =>
      have hstop : v.stop.session = .ready := by rw [stop, if_pos hrunning]
      exact .cutOff hstop (.inl rfl)
  | runPending => exact turn_runPending hkeeps h
  | surroundings f => exact turn_of_session_eq h (fun hconfirms => hconfirms.1) rfl rfl rfl
  | handle event =>
      cases event with
      | connect other =>
          have hconnect : v.handle (.connect other) =
              { v with board := v.board.tell (.close other) } := by
            rw [handle, connect, if_neg fun hboth => hready hboth.2]
          simp only [perform, hconnect]
          refine turn_of_session_eq h (fun hconfirms => hconfirms.1) rfl rfl ?_
          apply (v.board.adds_tell (.close other)).sendings_eq
          simp [Call.IsSend]
      | receive other data =>
          simp only [perform, handle_receive_of_label_ne hlabel]
          exact turn_of_session_eq h (fun hconfirms => hconfirms.1) rfl rfl rfl
      | sent other => exact turn_sent hkeeps.valid hsound h other
      | disconnect other => exact turn_disconnect h other
      | edge => exact turn_edge hkeeps h
      | timer =>
          refine turn_of_session_eq h (fun hconfirms => hconfirms.1) rfl rfl ?_
          exact (Traced.adds_tellAll v.board.beacon.tickCalls v.board.world).sendings_eq
            fun _ => not_isSend_of_mem_tickCalls

end View

end Device

end Infrared
