import Infrared.Bench
import Infrared.Proofs.Device.Turn
import Infrared.Proofs.Device.WaitState

namespace Infrared

namespace Device

/-- What a device answers, as far as its conversation has settled it. -/
def answer? {ω : Type} (d : Device ω) : Option Answer :=
  match d.session.conversation with
  | some ⟨_, .process (.send _)⟩ => some .sent
  | some ⟨_, .process (.receive (some report))⟩ =>
    some (.captured (d.config.pulseWidth.decodeMany report.count d.session.scratch.filled))
  | some ⟨_, .process (.config _ _ _)⟩ => some .configured
  | some ⟨_, .response reply _ _⟩ => some (reply.answer d.config.pulseWidth d.session.scratch.filled)
  | _ => none

variable {ω : Type} [Platform ω]

/-- What the station records should the level of the receive pin change, if it waits for that. -/
def recording? (d : Device ω) : Option (List UInt32) :=
  match d.board.capture d.session.scratch with
  | (some report, _, store) => some (d.config.pulseWidth.decodeMany report.count store.filled)
  | (none, _, _) => none

/-- The first signal that is recorded in a run. -/
def firstRecording? (d : Device (Traced ω)) : List (Operation ω) → Option (List UInt32)
  | [] => none
  | .handle .edge :: ops =>
    match d.recording? with
    | some pulses => some pulses
    | none => (d.perform (.handle .edge)).2.firstRecording? ops
  | op :: ops => (d.perform op).2.firstRecording? ops

/-- The answer to the request of a conversation: what the request says, or else the first signal that is
recorded. -/
def answerIn? (d : Device (Traced ω)) (ops : List (Operation ω)) : Option Answer :=
  match d.answer? with
  | some answer => some answer
  | none => (d.firstRecording? ops).map .captured

/-- Whether a connection is served at every moment of a run. -/
def Lasts (connection : Connection) (d : Device (Traced ω)) : List (Operation ω) → Prop
  | [] => d.session.connection? = some connection
  | op :: ops =>
    d.session.connection? = some connection ∧ Lasts connection (d.perform op).2 ops

instance decidableLasts (connection : Connection) :
    (d : Device (Traced ω)) → (ops : List (Operation ω)) → Decidable (d.Lasts connection ops)
  | d, [] => inferInstanceAs (Decidable (d.session.connection? = some connection))
  | d, op :: ops =>
    have := decidableLasts connection (d.perform op).2 ops
    inferInstanceAs
      (Decidable (d.session.connection? = some connection ∧ Lasts connection (d.perform op).2 ops))

/-- How many sends on a connection are confirmed in a run. -/
def confirmations (connection : Connection) (d : Device (Traced ω)) : List (Operation ω) → Nat
  | [] => 0
  | op :: ops =>
    (if op.Confirms connection ∧ d.session.awaitsConfirmation = true then 1 else 0) +
      confirmations connection (d.perform op).2 ops

variable {d : Device (Traced ω)} {v : View (Traced ω)} {connection : Connection}

omit [Platform ω] in
theorem Shows.answer?_eq (h : d.Shows v) : d.answer? = v.answer? := by
  have hagrees := h.session_shows.agrees
  cases hv : v.session with
  | ready =>
      rw [hv] at hagrees
      rw [answer?, View.answer?, hagrees.1, hv]
  | request current bytes =>
      rw [hv] at hagrees
      obtain ⟨reading, hconversation, -⟩ := hagrees
      rw [answer?, View.answer?, hconversation, hv]
  | process current request kept =>
      rw [hv] at hagrees
      obtain ⟨hconversation, hfilled, -⟩ := hagrees
      rw [answer?, View.answer?, hconversation, hv, hfilled, h.config_eq]
      cases request with
      | receive report =>
          cases report with
          | some report => rfl
          | none => rfl
      | send frequency => rfl
      | config name ssid password => rfl
  | response current reply kept sent =>
      rw [hv] at hagrees
      obtain ⟨next, hconversation, hfilled, -⟩ := hagrees
      rw [answer?, View.answer?, hconversation, hv, hfilled, h.config_eq]

omit [Platform ω] in
theorem Shows.awaitsConfirmation_eq (h : d.Shows v) :
    d.session.awaitsConfirmation = decide (v.session.label = "Response") := by
  have hagrees := h.session_shows.agrees
  cases hv : v.session with
  | ready =>
      rw [hv] at hagrees
      rw [Session.awaitsConfirmation, hagrees.1]
      rfl
  | request current bytes =>
      rw [hv] at hagrees
      obtain ⟨reading, hconversation, -⟩ := hagrees
      rw [Session.awaitsConfirmation, hconversation]
      rfl
  | process current request kept =>
      rw [hv] at hagrees
      rw [Session.awaitsConfirmation, hagrees.1]
      rfl
  | response current reply kept sent =>
      rw [hv] at hagrees
      obtain ⟨next, hconversation, -⟩ := hagrees
      rw [Session.awaitsConfirmation, hconversation]
      rfl

theorem answer?_handle_edge {request : Request}
    (hd : d.session.conversation = some ⟨connection, .process request⟩) (hnone : d.answer? = none) :
    (d.handle .edge).answer? = d.recording?.map .captured := by
  obtain ⟨config, ⟨limits, inbound, outbound, scratch, conversation⟩, board, running, pending⟩ := d
  dsimp only at hd
  subst hd
  cases request with
  | send frequency => simp [answer?] at hnone
  | config name ssid password => simp [answer?] at hnone
  | receive report =>
      cases report with
      | some report => simp [answer?] at hnone
      | none =>
          rcases hcapture : board.capture scratch with ⟨report, board', store⟩
          cases report with
          | none => simp only [handle, resume, Session.edge, hcapture, answer?, recording?, Option.map_none]
          | some report =>
              simp only [handle, resume, Session.edge, hcapture, answer?, recording?, Option.map_some]

theorem connection?_of_lasts {ops : List (Operation ω)} (h : d.Lasts connection ops) :
    d.session.connection? = some connection := by
  cases ops with
  | nil => exact h
  | cons op ops => exact h.1

theorem firstRecording?_cons_of_ne {op : Operation ω} (h : op ≠ .handle .edge)
    (ops : List (Operation ω)) :
    d.firstRecording? (op :: ops) = (d.perform op).2.firstRecording? ops := by
  cases op with
  | handle event =>
      cases event with
      | edge => exact absurd rfl h
      | _ => rfl
  | _ => rfl

theorem firstRecording?_append {ops : List (Operation ω)} {pulses : List UInt32}
    (h : d.firstRecording? ops = some pulses) (more : List (Operation ω)) :
    d.firstRecording? (ops ++ more) = some pulses := by
  induction ops generalizing d with
  | nil => simp [firstRecording?] at h
  | cons op ops ih =>
      rw [List.cons_append]
      by_cases hedge : op = .handle .edge
      · subst hedge
        rw [firstRecording?] at h ⊢
        cases hrecording : d.recording? with
        | some recorded =>
            rw [hrecording] at h
            exact h
        | none =>
            rw [hrecording] at h
            exact ih h
      · rw [firstRecording?_cons_of_ne hedge] at h ⊢
        exact ih h

omit [Platform ω] in
theorem Follows.exists_process {before : List Sending} {confirmed : Nat} (hfollows : d.Follows v)
    (h : v.Answering connection before confirmed) (hnone : d.answer? = none) :
    ∃ request, d.session.conversation = some ⟨connection, .process request⟩ := by
  have hagrees := hfollows.shows.session_shows.agrees
  rw [hfollows.shows.answer?_eq] at hnone
  cases hv : v.session with
  | process current request kept =>
      rw [hv] at hagrees
      simp only [View.Answering, hv] at h
      exact ⟨request, by rw [hagrees.1, h.1]⟩
  | response current reply kept sent => simp [View.answer?, hv] at hnone
  | ready => simp [View.Answering, hv] at h
  | request current bytes => simp [View.Answering, hv] at h

theorem answerIn?_append {ops : List (Operation ω)} {answer : Answer}
    (h : d.answerIn? ops = some answer) (more : List (Operation ω)) :
    d.answerIn? (ops ++ more) = some answer := by
  rw [answerIn?] at h ⊢
  cases hanswer : d.answer? with
  | some settled =>
      rw [hanswer] at h
      exact h
  | none =>
      rw [hanswer, Option.map_eq_some_iff] at h
      obtain ⟨pulses, hpulses, rfl⟩ := h
      rw [Option.map_eq_some_iff]
      exact ⟨pulses, firstRecording?_append hpulses more, rfl⟩

theorem answerIn?_cons (hfollows : d.Follows v) {op : Operation ω}
    (hprocess : d.answer? = none →
      ∃ request, d.session.conversation = some ⟨connection, .process request⟩)
    (hsettled : ∀ answer, v.answer? = some answer → (v.perform op).2.answer? = some answer)
    (hrecorded : v.answer? = none → (v.perform op).2.answer? ≠ none → op = .handle .edge)
    (ops : List (Operation ω)) :
    d.answerIn? (op :: ops) = (d.perform op).2.answerIn? ops := by
  rw [← hfollows.shows.answer?_eq, ← (hfollows.perform op).2.shows.answer?_eq] at *
  cases hanswer : d.answer? with
  | some answer => rw [answerIn?, answerIn?, hanswer, hsettled answer hanswer]
  | none =>
      rw [answerIn?, hanswer]
      by_cases hedge : op = .handle .edge
      · subst hedge
        obtain ⟨request, hconversation⟩ := hprocess hanswer
        have hnext : (d.perform (.handle .edge)).2.answer? = d.recording?.map .captured :=
          answer?_handle_edge hconversation hanswer
        rw [answerIn?, hnext, firstRecording?]
        cases d.recording? with
        | some pulses => rfl
        | none => rfl
      · have hnext : (d.perform op).2.answer? = none := by
          refine Decidable.byContradiction fun hsome => ?_
          exact hedge (hrecorded hanswer hsome)
        rw [answerIn?, hnext, firstRecording?_cons_of_ne hedge]

omit [Platform ω] in
theorem Follows.answering_of_process (hfollows : d.Follows v) {request : Request}
    (hd : d.session.conversation = some ⟨connection, .process request⟩) :
    v.Answering connection d.board.world.sendings 0 := by
  have hagrees := hfollows.shows.session_shows.agrees
  cases hv : v.session with
  | process current demand kept =>
      rw [hv] at hagrees
      have hsame := hagrees.1.symm.trans hd
      simp only [Option.some.injEq, Session.Conversation.mk.injEq] at hsame
      simp only [View.Answering, hv]
      exact ⟨hsame.1, trivial, by rw [hfollows.shows.board_eq]⟩
  | ready =>
      rw [hv] at hagrees
      simp [hagrees.1] at hd
  | request current bytes =>
      rw [hv] at hagrees
      obtain ⟨reading, hconversation, -⟩ := hagrees
      simp [hconversation] at hd
  | response current reply kept sent =>
      rw [hv] at hagrees
      obtain ⟨next, hconversation, -⟩ := hagrees
      simp [hconversation] at hd

/-- While a conversation goes on, it has sent what it should have. -/
theorem Follows.answering_run {before : List Sending} {confirmed : Nat} (hfollows : d.Follows v)
    (h : v.Answering connection before confirmed) {ops : List (Operation ω)}
    (hlasts : d.Lasts connection ops) :
    (v.run ops).2.Answering connection before (confirmed + d.confirmations connection ops) ∧
      (v.run ops).2.answer? = d.answerIn? ops := by
  induction ops generalizing d v confirmed with
  | nil =>
      refine ⟨h, ?_⟩
      have hanswer := hfollows.shows.answer?_eq
      rw [View.run, ← hanswer, answerIn?]
      cases d.answer? with
      | some answer => rfl
      | none => rfl
  | cons op ops ih =>
      obtain ⟨-, hlater⟩ := hlasts
      have hnext := (hfollows.perform op).2
      have hserved : (v.perform op).2.session.connection? = some connection := by
        rw [← hnext.shows.session_shows.connection?_eq]
        exact connection?_of_lasts hlater
      have hturn := View.turn_perform hfollows.keeps hfollows.shows.session_shows.sound h op
      obtain ⟨hanswering, hsettled, hrecorded⟩ := hturn.goesOn_of_connection? hserved
      obtain ⟨hrun, hanswer⟩ := ih hnext hanswering hlater
      have hawaits : d.session.awaitsConfirmation = true ↔ v.session.label = "Response" := by
        rw [hfollows.shows.awaitsConfirmation_eq, decide_eq_true_eq]
      -- What this operation confirms is added to what the rest of the run confirms.
      refine ⟨?_, ?_⟩
      · simp only [confirmations, hawaits]
        rw [← Nat.add_assoc]
        exact hrun
      · rw [answerIn?_cons hfollows (hfollows.exists_process h) hsettled hrecorded]
        exact hanswer

/-- From when its request was taken up, a conversation has sent, at every moment, the first pieces of one
reply: none while the request is worked on, and then one more than were confirmed. It ends when it is cut off
or when the last piece is confirmed, and then the connection is closed. -/
theorem Reachable.sendings_run {config : Config} (h : Reachable config d) {request : Request}
    (hd : d.session.conversation = some ⟨connection, .process request⟩) {ops : List (Operation ω)}
    (hlasts : d.Lasts connection ops) :
    (∀ answer, Bench.Cuts config.sendBufferLength (answer.wire config) (pieces config answer)) ∧
    (∀ answer, d.answerIn? ops = some answer →
      ∀ more, d.answerIn? (ops ++ more) = some answer) ∧
    ((d.run ops).2.session.label = "Process" ∧ d.confirmations connection ops = 0 ∧
        (d.run ops).2.board.world.sendings = d.board.world.sendings ∨
      (d.run ops).2.session.label = "Response" ∧ ∃ answer, d.answerIn? ops = some answer ∧
        d.confirmations connection ops < (pieces config answer).length ∧
        (d.run ops).2.board.world.sendings = d.board.world.sendings ++
          sendingsOf connection
            ((pieces config answer).take (d.confirmations connection ops + 1))) ∧
    ∀ op, ((d.run ops).2.perform op).2.session.connection? ≠ some connection →
      (op = .stop ∨ op = .handle (.disconnect connection) ∨
        ∃ data, ((d.run ops).2.perform op).2.board.world.sendings =
          (d.run ops).2.board.world.sendings ++ [⟨connection, data, false⟩]) ∨
      op = .handle (.sent connection) ∧ ∃ answer, d.answerIn? ops = some answer ∧
        ((d.run ops).2.perform op).2.board.world.sendings =
          d.board.world.sendings ++ sendingsOf connection (pieces config answer) ∧
        d.confirmations connection ops + 1 =
          ((answer.wire config).length + config.sendBufferLength - 1) / config.sendBufferLength ∧
        ∃ calls, (∀ call ∈ calls, ∃ name ssid password, call = .configured name ssid password) ∧
          ((d.run ops).2.perform op).2.board.world.calls =
            (d.run ops).2.board.world.calls ++ (calls ++ [.close connection, .disableInterrupts]) := by
  obtain ⟨v, hfollows, rfl⟩ := h.exists_follows
  have hpos := hfollows.keeps.valid.headLength_le_send
  simp only [Packet.headLength] at hpos
  have hconfig := v.config_run ops
  have hlast := (hfollows.run ops).2
  have hboard := hlast.shows.board_eq
  obtain ⟨hanswering, hanswer⟩ :=
    hfollows.answering_run (hfollows.answering_of_process hd) hlasts
  rw [Nat.zero_add] at hanswering
  refine ⟨fun answer => Bench.cuts_cut (by omega) _, fun answer => answerIn?_append, ?_, ?_⟩
  · rw [hlast.shows.session_shows.label_eq, hboard, ← hanswer, ← hconfig]
    exact View.sendings_of_answering hlast.keeps.valid hlast.shows.session_shows.sound hanswering
  · intro op hop
    have hnext := (hlast.perform op).2
    rw [hnext.shows.session_shows.connection?_eq] at hop
    rw [hnext.shows.board_eq, hboard]
    have hturn :=
      View.turn_perform hlast.keeps hlast.shows.session_shows.sound hanswering op
    rcases hturn.ended_of_connection? hop with hfinished | hcut
    · refine .inr ⟨hfinished.confirms, ?_⟩
      obtain ⟨answer, hsettled, hsendings, hlength⟩ := hfinished.exists_answer
      obtain ⟨calls, hcalls, hadds⟩ := hfinished.exists_calls
      have hsame : ((v.run ops).2.perform op).2.board.world.sendings =
          (v.run ops).2.board.world.sendings :=
        hadds.sendings_eq (Session.View.not_isSend_of_mem_configured hcalls)
      rw [hconfig] at hsendings hlength
      refine ⟨answer, hanswer.symm.trans hsettled, hsame.trans hsendings, ?_, calls, hcalls,
        hadds.calls_eq⟩
      rw [hlength, pieces, Bench.length_cut (by omega)]
    · exact .inl hcut

/-- The reply to a request to record a signal, in four pieces: the device sends one more after each confirmation, and
closes the connection after the fourth. -/
theorem sendings_receiveRequest :
    let config : Config := { sendBufferLength := 4, signalTimeout := 40, pulseTimeout := 20 }
    let d := ((fresh config ⟨{}, []⟩).run
      [.start, .handle (.connect 7), .handle (.receive 7 [2, 0, 0])]).2
    let ops : List (Operation Bench) :=
      [.runPending, .surroundings fun b => b.schedule [10, 5, 7] 0, .handle .edge, .runPending,
        .handle (.sent 7), .handle (.sent 7), .handle (.sent 7)]
    let reply : List (List UInt8) := [[3, 0, 12, 0], [0, 0, 0, 0], [3, 0, 10, 0], [5, 0, 7]]
    d.answerIn? ops = some (.captured [10, 5, 7]) ∧
      pieces config (.captured [10, 5, 7]) = reply ∧
      d.confirmations 7 ops = 3 ∧
      (d.run ops).2.board.world.sendings = d.board.world.sendings ++ sendingsOf 7 reply ∧
      ((d.run ops).2.perform (.handle (.sent 7))).2.session.connection? = none ∧
      ((d.run ops).2.perform (.handle (.sent 7))).2.board.world.sendings =
        d.board.world.sendings ++ sendingsOf 7 reply ∧
      ((d.run ops).2.perform (.handle (.sent 7))).2.board.world.calls =
        (d.run ops).2.board.world.calls ++ [.close 7, .disableInterrupts] := by
  intro config d ops reply
  have hfresh : Reachable config (fresh config ⟨{}, []⟩ : Device (Traced Bench)) := reachable_fresh rfl _
  have hreachable : Reachable config d := hfresh.run _
  have hconversation : d.session.conversation = some ⟨7, .process (.receive none)⟩ := by decide +kernel
  have hanswer : d.answerIn? ops = some (.captured [10, 5, 7]) := by decide +kernel
  have hconfirmed : d.confirmations 7 ops = 3 := by decide +kernel
  have hpieces : pieces config (.captured [10, 5, 7]) = reply := by decide +kernel
  have hlasts : d.Lasts 7 ops := by decide +kernel
  have hlabel : (d.run ops).2.session.label = "Response" := by decide +kernel
  have hclosed : ((d.run ops).2.perform (.handle (.sent 7))).2.session.connection? = none := by
    decide +kernel
  have hsame : ((d.run ops).2.perform (.handle (.sent 7))).2.board.world.sendings =
      (d.run ops).2.board.world.sendings := by decide +kernel
  have hcalls : ((d.run ops).2.perform (.handle (.sent 7))).2.board.world.calls =
      (d.run ops).2.board.world.calls ++ [.close 7, .disableInterrupts] := by decide +kernel
  have hfour : sendingsOf 7 (reply.take (3 + 1)) = sendingsOf 7 reply := rfl
  clear_value d ops reply
  obtain ⟨-, -, hsent, hends⟩ := hreachable.sendings_run hconversation hlasts
  rcases hsent with ⟨hprocess, -⟩ | ⟨-, answer, hsettled, -, hsendings⟩
  · exact absurd (hprocess.symm.trans hlabel) (by decide)
  · obtain rfl := Option.some.inj (hanswer.symm.trans hsettled)
    rw [hconfirmed, hpieces, hfour] at hsendings
    refine ⟨hanswer, hpieces, hconfirmed, hsendings, hclosed, ?_, hcalls⟩
    rcases hends (.handle (.sent 7)) (by rw [hclosed]; simp) with
      (hstop | hdisconnect | ⟨data, hrefused⟩) | ⟨-, answer, hsettled, hfinished, -⟩
    · simp at hstop
    · simp at hdisconnect
    · have hnil := List.self_eq_append_right.mp (hsame.symm.trans hrefused)
      exact absurd hnil (List.cons_ne_nil _ _)
    · obtain rfl := Option.some.inj (hanswer.symm.trans hsettled)
      rwa [hpieces] at hfinished

end Device

end Infrared
