import Infrared.Proofs.Capture
import Infrared.Proofs.Session.View

namespace Infrared.Session

variable {config : Config} {s : Session} {v : View}

theorem shows_clear (h : s.Fits config) : s.clear.Shows config .ready := by
  refine ⟨⟨h.limits_eq, ⟨h.intake_fits.side_eq, h.intake_fits.swapped_eq,
    h.intake_fits.capacity_eq, h.intake_fits.scratch_eq⟩, h.side_eq, h.swapped_eq, h.capacity_eq⟩,
    trivial, Buffer.filled_reset _, rfl, rfl, Buffer.filled_reset _, rfl, Buffer.filled_reset _⟩

theorem shows_new (config : Config) : (Session.new config).Shows config .ready := by
  refine ⟨⟨rfl, ⟨rfl, rfl, rfl, rfl⟩, rfl, rfl, rfl⟩, trivial, Buffer.filled_new _, rfl, rfl,
    Buffer.filled_new _, rfl, Buffer.filled_new _⟩

theorem Shows.connection?_eq (h : s.Shows config v) : s.connection? = v.connection? := by
  have hagrees := h.agrees
  cases v with
  | ready => rw [connection?, hagrees.1]; rfl
  | request connection received =>
      obtain ⟨reading, hconversation, -⟩ := hagrees
      rw [connection?, hconversation]
      rfl
  | process connection request kept => rw [connection?, hagrees.1]; rfl
  | response connection reply kept sent =>
      obtain ⟨next, hconversation, -⟩ := hagrees
      rw [connection?, hconversation]
      rfl

theorem Shows.label_eq (h : s.Shows config v) : s.label = v.label := by
  have hagrees := h.agrees
  cases v with
  | ready => rw [label, hagrees.1]; rfl
  | request connection received =>
      obtain ⟨reading, hconversation, -⟩ := hagrees
      rw [label, hconversation]
      rfl
  | process connection request kept => rw [label, hagrees.1]; rfl
  | response connection reply kept sent =>
      obtain ⟨next, hconversation, -⟩ := hagrees
      rw [label, hconversation]
      rfl

theorem Shows.attach_eq_of_ready (h : s.Shows config .ready) (connection : Connection) :
    ∃ t, s.attach connection = (.ok (), t) ∧ t.Shows config (.request connection []) := by
  obtain ⟨hconversation, hposition, hdata, hout, hscratch⟩ := h.agrees
  refine ⟨{ s with conversation := some ⟨connection, .request .kind⟩ }, ?_,
    ⟨h.fits.limits_eq, h.fits.intake_fits, h.fits.side_eq, h.fits.swapped_eq, h.fits.capacity_eq⟩, rfl,
    h.drained, .kind, rfl, ?_, hout⟩
  · simp only [attach, isAttached, hconversation]
    rfl
  refine ⟨rfl, h.fits.intake_fits, hscratch, hposition, ?_⟩
  rw [Buffer.unconsumed_eq_drop, show s.inbound.buffer.filled = [] from hdata, List.drop_nil]

theorem Shows.attach_eq_of_ne_ready (h : s.Shows config v) (hv : v ≠ .ready)
    (connection : Connection) : s.attach connection = (.error .busy, s) := by
  have hattached : s.isAttached = true := by
    have hconnection := h.connection?_eq
    rw [isAttached]
    cases hconversation : s.conversation with
    | some conversation => rfl
    | none =>
        rw [connection?, hconversation] at hconnection
        cases v with
        | ready => exact absurd rfl hv
        | _ => simp [View.connection?] at hconnection
  rw [attach, if_pos hattached]

variable {ω : Type} [Platform ω] {board : Board ω}

/-- Whether an operation of a session came to what the operation of its view came to. -/
structure Matches (config : Config) (x : Progress × Session × Board ω)
    (y : Progress × View × Board ω) : Prop where
  progress_eq : x.1 = y.1
  board_eq : x.2.2 = y.2.2
  shows : x.2.1.Shows config y.2.1

theorem release_eq_of_conversation {connection : Connection} {phase : Phase}
    (h : s.conversation = some ⟨connection, phase⟩) (board : Board ω) :
    s.release board = (s.clear, View.dismiss connection board) := by
  simp only [release, h]
  rfl

theorem Shows.release_eq (h : s.Shows config v) (board : Board ω) :
    ∃ t, s.release board = (t, (v.release board).2) ∧ t.Shows config (v.release board).1 := by
  refine ⟨s.clear, ?_, ?_⟩
  · have hconnection := h.connection?_eq
    rw [connection?] at hconnection
    simp only [release, View.release]
    cases hconversation : s.conversation with
    | none =>
        rw [hconversation, Option.map_none] at hconnection
        rw [← hconnection]
    | some conversation =>
        rw [hconversation, Option.map_some] at hconnection
        rw [← hconnection]
        rfl
  · simp only [View.release]
    split
    · exact shows_clear h.fits
    · exact shows_clear h.fits

theorem Shows.disconnect_eq (h : s.Shows config v) (board : Board ω) :
    ∃ t, s.disconnect board = (t, board.resetStation) ∧ t.Shows config .ready := by
  refine ⟨s.clear, ?_, shows_clear h.fits⟩
  simp only [disconnect, release, clear]

theorem matches_release (h : s.Fits config) {connection : Connection} {phase : Phase}
    (hconversation : s.conversation = some ⟨connection, phase⟩) (board : Board ω) :
    Matches config (.done, s.release board) (.done, .ready, View.dismiss connection board) := by
  rw [release_eq_of_conversation hconversation]
  exact ⟨rfl, rfl, shows_clear h⟩

theorem run_of_ok {t : Session} {progress : Progress} {after : Board ω}
    (h : s.step board = (.ok progress, t, after)) : s.run board = (progress, t, after) := by
  rw [run, h]

theorem run_of_error {t : Session} {fault : Fault} {after : Board ω}
    (h : s.step board = (.error fault, t, after)) : s.run board = (.done, t.release after) := by
  rw [run, h]

theorem read?_eq_of_le {span : Span} {store : Buffer}
    (h : span.start + span.length ≤ store.filled.length) :
    span.read? store = some (span.of store.filled) :=
  (store.slice?_eq_some_iff _ _ _).mpr ⟨by rwa [← Buffer.length_filled], rfl⟩

theorem apply_eq {reply : Reply} (h : View.Supplied config s.scratch.filled reply)
    (board : Board ω) : s.apply reply board = View.apply reply s.scratch.filled board := by
  cases reply with
  | sent => rfl
  | captured count => rfl
  | configured name ssid password =>
      obtain ⟨hname, hssid, hpassword⟩ := h
      simp only [apply, View.apply, read?_eq_of_le hname, read?_eq_of_le hssid,
        read?_eq_of_le hpassword]

theorem View.backed_of_supplied (hconfig : config.Valid) {kept : List UInt8} {reply : Reply}
    (h : View.Supplied config kept reply) : reply.Backed config.pulseWidth kept := by
  cases reply with
  | sent => trivial
  | configured name ssid password => trivial
  | captured count =>
      obtain ⟨hcount, hlength⟩ := h
      have hbody := hconfig.bodyLength_le
      exact ⟨hcount, by omega⟩

theorem View.piece_eq_nil_iff (hconfig : config.Valid) {reply : Reply} {kept : List UInt8}
    {sent : Nat} :
    View.piece config reply kept sent = [] ↔
      ((reply.answer config.pulseWidth kept).wire config).drop (sent * config.sendBufferLength) = [] := by
  have hsend := hconfig.headLength_le_send
  simp only [Packet.headLength] at hsend
  rw [View.piece, List.take_eq_nil_iff]
  constructor
  · rintro (h | h)
    · omega
    · exact h
  · exact .inr

theorem View.piece_zero_ne_nil (hconfig : config.Valid) (reply : Reply) (kept : List UInt8) :
    View.piece config reply kept 0 ≠ [] := by
  rw [Ne, View.piece_eq_nil_iff hconfig, Nat.zero_mul, List.drop_zero]
  exact Answer.wire_ne_nil _ _

theorem View.lt_length_of_piece_ne_nil (hconfig : config.Valid) {reply : Reply} {kept : List UInt8}
    {sent : Nat} (h : View.piece config reply kept sent ≠ []) :
    sent * config.sendBufferLength <
      ((reply.answer config.pulseWidth kept).wire config).length := by
  rw [Ne, View.piece_eq_nil_iff hconfig] at h
  have hlength := List.length_pos_iff.mpr h
  rw [List.length_drop] at hlength
  omega

theorem Fits.left_eq (h : s.Fits config) (hdrained : s.outbound.data = []) :
    s.outbound.left = config.sendBufferLength := by
  have hfilled : s.outbound.buffer.filled = [] := hdrained
  have hsum := s.outbound.buffer.size_add_left
  rw [← Buffer.length_filled, hfilled, List.length_nil, Nat.zero_add] at hsum
  rw [← h.capacity_eq]
  exact hsum

theorem Fits.exists_encode_eq (h : s.Fits config) (hconfig : config.Valid)
    (hdrained : s.outbound.data = []) {reply : Reply}
    (hsupplied : View.Supplied config s.scratch.filled reply) {next sent : Nat}
    (hunsent : Unsent config.swapped
      ((reply.answer config.pulseWidth s.scratch.filled).fields config.pulseWidth) next
      s.outbound.position
      (((reply.answer config.pulseWidth s.scratch.filled).wire config).drop
        (sent * config.sendBufferLength))) :
    ∃ next' out, reply.encode s.limits.pulseWidth s.scratch next s.outbound =
        (.ok (decide ((((reply.answer config.pulseWidth s.scratch.filled).wire config).drop
          (sent * config.sendBufferLength)).length ≤ config.sendBufferLength)), next', out) ∧
      Fits config { s with outbound := out } ∧
      out.data = View.piece config reply s.scratch.filled sent ∧
      Unsent config.swapped
        ((reply.answer config.pulseWidth s.scratch.filled).fields config.pulseWidth) next' out.position
        (((reply.answer config.pulseWidth s.scratch.filled).wire config).drop
          ((sent + 1) * config.sendBufferLength)) := by
  have hwidth : s.limits.pulseWidth = config.pulseWidth := by rw [h.limits_eq]; rfl
  rw [← h.swapped_eq] at hunsent ⊢
  obtain ⟨next', out, hencode, hsame, hdata, hrest⟩ :=
    Reply.encode_eq (View.backed_of_supplied hconfig hsupplied) h.side_eq hunsent
  rw [h.left_eq hdrained] at hencode hdata hrest
  rw [hdrained, List.nil_append] at hdata
  rw [List.drop_drop, ← Nat.succ_mul] at hrest
  rw [hwidth]
  exact ⟨next', out, hencode, ⟨h.limits_eq, h.intake_fits, hsame.side_eq.trans h.side_eq,
    hsame.swapped_eq.trans h.swapped_eq, hsame.capacity_eq.trans h.capacity_eq⟩, hdata, hrest⟩

theorem View.sound_of_piece_ne_nil (hconfig : config.Valid) {reply : Reply} {kept : List UInt8}
    {sent : Nat} (hsupplied : View.Supplied config kept reply)
    (h : View.piece config reply kept sent ≠ []) (connection : Connection) :
    View.Sound config (.response connection reply kept (sent + 1)) := by
  refine ⟨hsupplied, Nat.succ_pos sent, ?_⟩
  rw [Nat.add_sub_cancel]
  exact View.lt_length_of_piece_ne_nil hconfig h

theorem matches_respond (hconfig : config.Valid) (hfits : s.Fits config)
    (hdrained : s.outbound.data = []) {connection : Connection} {phase : Phase}
    (hconversation : s.conversation = some ⟨connection, phase⟩) {reply : Reply}
    (hsupplied : View.Supplied config s.scratch.filled reply) {next sent : Nat}
    (hunsent : Unsent config.swapped
      ((reply.answer config.pulseWidth s.scratch.filled).fields config.pulseWidth) next
      s.outbound.position
      (((reply.answer config.pulseWidth s.scratch.filled).wire config).drop
        (sent * config.sendBufferLength)))
    {before : Board ω} (hstep : s.step before = s.stepResponse connection reply next board) :
    Matches config (s.run before)
      (View.respond config connection reply s.scratch.filled sent board) := by
  obtain ⟨next', out, hencode, hfits', hpiece, hunsent'⟩ :=
    hfits.exists_encode_eq hconfig hdrained hsupplied hunsent
  simp only [stepResponse, hencode] at hstep
  simp only [View.respond]
  by_cases hempty : View.piece config reply s.scratch.filled sent = []
  · have hrest := (View.piece_eq_nil_iff hconfig).mp hempty
    have hdone : out.data.isEmpty = true := by rw [hpiece, hempty]; rfl
    rw [hrest] at hstep
    simp only [hdone, List.length_nil, Nat.zero_le, decide_true, if_true] at hstep
    have hrelease := release_eq_of_conversation (s := { s with outbound := out }) hconversation
      (View.apply reply s.scratch.filled board)
    have happly : Session.apply { s with outbound := out } reply board =
        View.apply reply s.scratch.filled board := apply_eq hsupplied board
    rw [happly, hrelease] at hstep
    rw [run_of_ok hstep, if_pos hempty]
    exact ⟨rfl, rfl, shows_clear hfits'⟩
  · have hsome : ¬out.data.isEmpty = true := by rwa [List.isEmpty_iff, hpiece]
    simp only [if_neg hsome] at hstep
    rw [if_neg hempty, ← hpiece]
    cases hsend : Platform.send connection out.data board.world with
    | mk accepted world =>
        rw [hsend] at hstep
        cases accepted with
        | true =>
            rw [run_of_ok hstep]
            -- draining the stream keeps its place in a field that was sent in part
            exact ⟨rfl, rfl, ⟨hfits.limits_eq, hfits.intake_fits, hfits'.side_eq,
              hfits'.swapped_eq, hfits'.capacity_eq⟩,
              View.sound_of_piece_ne_nil hconfig hsupplied hempty connection,
              Buffer.filled_reset _, next', rfl, rfl, hunsent'⟩
        | false =>
            rw [run_of_error hstep]
            exact matches_release hfits' hconversation _

theorem Unsent.zero (swapped : Bool) (fields : List Field) :
    Unsent swapped fields 0 0 (fields.flatMap (Field.wire swapped)) :=
  ⟨fun _ _ => Nat.zero_le _, rfl⟩

theorem matches_respond_first (hconfig : config.Valid) (hfits : s.Fits config)
    (hdrained : s.outbound.data = []) (hposition : s.outbound.position = 0)
    {connection : Connection} {phase : Phase}
    (hconversation : s.conversation = some ⟨connection, phase⟩) (reply : Reply)
    (hsupplied : View.Supplied config s.scratch.filled reply)
    {before : Board ω} (hstep : s.step before = s.stepResponse connection reply 0 board) :
    Matches config (s.run before)
      (View.respond config connection reply s.scratch.filled 0 board) := by
  refine matches_respond hconfig hfits hdrained hconversation hsupplied ?_ hstep
  rw [hposition, Nat.zero_mul, List.drop_zero, Answer.wire_eq_flatMap]
  exact Unsent.zero _ _

theorem matches_blocked (h : s.Shows config v) (hstep : s.step board = (.ok .blocked, s, board)) :
    Matches config (s.run board) (.blocked, v, board) := by
  rw [run_of_ok hstep]
  exact ⟨rfl, rfl, h⟩

theorem View.sound_of_accepted {connection : Connection} {bytes kept : List UInt8}
    {request : Request} (h : Request.verdict config bytes = .accepted request kept) :
    View.Sound config (.process connection request kept) := by
  obtain ⟨content, -, -, rfl, rfl⟩ := Request.exists_of_verdict_eq_accepted h
  cases content with
  | send frequency pulses => trivial
  | receive => rfl
  | config name ssid password =>
      simp only [Request.Content.request, Request.Content.kept, Sound, Supplied, List.length_append]
      omega

theorem matches_decode (hfits : s.Fits config) (hdrained : s.outbound.data = [])
    (hposition : s.outbound.position = 0) {connection : Connection} {reading : Request.Reading}
    (hconversation : s.conversation = some ⟨connection, .request reading⟩) {bytes : List UInt8}
    (hsettles : Request.Reading.Settles config bytes (Request.verdict config bytes)
      (reading.resume (Request.limits config) ⟨s.inbound, s.scratch⟩))
    (board : Board ω) :
    Matches config (s.run board)
      (match Request.verdict config bytes with
      | .waiting => (.blocked, .request connection bytes, board)
      | .accepted request kept => (.yield, .process connection request kept, board)
      | .refused => (.done, .ready, View.dismiss connection board)) := by
  have hstep : s.step board = s.stepRequest connection reading board := by
    simp only [step, hconversation]
  obtain ⟨limits, inbound, outbound, scratch, conversation⟩ := s
  have hlimits : limits = Request.limits config := hfits.limits_eq
  subst hlimits
  simp only [stepRequest] at hstep hsettles
  rcases hresume : reading.resume (Request.limits config) ⟨inbound, scratch⟩ with ⟨result, i⟩
  rw [hresume] at hstep hsettles
  have hfits' (i : Request.Intake) (phase : Option Conversation)
      (h : i.Fits config) : Fits config ⟨Request.limits config, i.inbound, outbound, i.scratch, phase⟩ :=
    ⟨rfl, h, hfits.side_eq, hfits.swapped_eq, hfits.capacity_eq⟩
  cases hverdict : Request.verdict config bytes with
  | waiting =>
      rw [hverdict] at hsettles
      rcases result with fault | (reading' | request)
      · exact absurd hsettles id
      · rw [run_of_ok hstep]
        refine ⟨rfl, rfl, hfits' i _ (Request.Reading.fits_of_shows hsettles), hverdict, hdrained,
          reading', rfl, hsettles, hposition⟩
      · exact absurd hsettles id
  | accepted request kept =>
      rw [hverdict] at hsettles
      rcases result with fault | (reading' | request')
      · exact absurd hsettles id
      · exact absurd hsettles id
      · obtain ⟨rfl, hintake, hkept⟩ := hsettles
        rw [run_of_ok hstep]
        exact ⟨rfl, rfl, hfits' i _ hintake, View.sound_of_accepted hverdict, hdrained, rfl, hkept,
          hposition⟩
  | refused =>
      rw [hverdict] at hsettles
      rcases result with fault | (reading' | request)
      · rw [run_of_error hstep]
        exact matches_release (hfits' i _ hsettles) hconversation board
      · exact absurd hsettles id
      · exact absurd hsettles id

theorem Shows.matches_receive (h : s.Shows config v) (data : List UInt8) (board : Board ω) :
    Matches config (s.receive data board) (v.receive config data board) := by
  have hagrees := h.agrees
  cases v with
  | request connection received =>
      obtain ⟨reading, hconversation, hreading, hposition⟩ := hagrees
      obtain ⟨limits, inbound, outbound, scratch, conversation⟩ := s
      dsimp only at hconversation
      subst hconversation
      simp only [receive, View.receive]
      rcases Nat.lt_or_ge config.receiveBufferLength data.length with hlt | hle
      · obtain ⟨fault, after, hfeed, hfits⟩ := Request.Reading.feed_of_length_lt hreading hlt
        dsimp only at hfeed
        rw [hfeed, if_pos hlt]
        refine matches_release ?_ rfl board
        exact ⟨h.fits.limits_eq, hfits, h.fits.side_eq, h.fits.swapped_eq, h.fits.capacity_eq⟩
      · obtain ⟨after, hfeed, hrefills⟩ := Request.Reading.feed_of_shows hreading hle
        dsimp only at hfeed
        rw [hfeed, if_neg (Nat.not_lt.mpr hle)]
        have hsettles := Request.Reading.settles_resume hreading hrefills
        refine matches_decode (s := ⟨limits, after, outbound, scratch,
          some ⟨connection, .request reading⟩⟩) ?_ h.drained hposition rfl hsettles board
        exact ⟨h.fits.limits_eq, hrefills.fits h.fits.intake_fits, h.fits.side_eq,
          h.fits.swapped_eq, h.fits.capacity_eq⟩
  | ready =>
      obtain ⟨hconversation, -⟩ := hagrees
      obtain ⟨limits, inbound, outbound, scratch, conversation⟩ := s
      dsimp only at hconversation
      subst hconversation
      exact ⟨rfl, rfl, h⟩
  | process connection request kept =>
      obtain ⟨hconversation, -⟩ := hagrees
      obtain ⟨limits, inbound, outbound, scratch, conversation⟩ := s
      dsimp only at hconversation
      subst hconversation
      exact ⟨rfl, rfl, h⟩
  | response connection reply kept sent =>
      obtain ⟨next, hconversation, -⟩ := hagrees
      obtain ⟨limits, inbound, outbound, scratch, conversation⟩ := s
      dsimp only at hconversation
      subst hconversation
      exact ⟨rfl, rfl, h⟩

/-- A request to record a signal has the station wait for one, unless it does so already. -/
theorem Shows.matches_run_receive {connection : Connection} {kept : List UInt8}
    (h : s.Shows config (.process connection (.receive none) kept)) (board : Board ω) :
    Matches config (s.run board)
      (View.run config (.process connection (.receive none) kept) board) := by
  obtain ⟨hconversation, rfl, hposition⟩ := h.agrees
  have hkept : s.scratch.filled = [] := h.sound
  simp only [View.run]
  by_cases harmed : board.station.armed = true
  · rw [if_pos harmed]
    refine matches_blocked h ?_
    simp only [step, hconversation, stepProcess, if_pos harmed]
  · rw [if_neg harmed]
    have hstep : s.step board = (.ok .blocked, { s with scratch := s.scratch.reset },
        board.armCapture) := by
      simp only [step, hconversation, stepProcess, if_neg harmed]
    have hfits : Fits config { s with scratch := s.scratch.reset } :=
      ⟨h.fits.limits_eq, ⟨h.fits.intake_fits.side_eq, h.fits.intake_fits.swapped_eq,
        h.fits.intake_fits.capacity_eq, h.fits.intake_fits.scratch_eq⟩, h.fits.side_eq,
        h.fits.swapped_eq, h.fits.capacity_eq⟩
    rw [run_of_ok hstep, hkept]
    exact ⟨rfl, rfl, hfits, rfl, h.drained, hconversation, Buffer.filled_reset _, hposition⟩

theorem Shows.matches_run (hconfig : config.Valid) (h : s.Shows config v) (board : Board ω) :
    Matches config (s.run board) (v.run config board) := by
  have hagrees := h.agrees
  cases v with
  | ready =>
      refine matches_blocked h ?_
      simp only [step, hagrees.1]
  | request connection received =>
      obtain ⟨reading, hconversation, hreading, hposition⟩ := hagrees
      have hverdict : Request.verdict config received = .waiting := h.sound
      have hrefills : Request.Reading.Refills [] s.inbound s.inbound :=
        ⟨rfl, rfl, rfl, rfl, rfl, Request.Reading.unconsumed_of_shows hreading⟩
      have hsettles := Request.Reading.settles_resume hreading hrefills
      rw [List.append_nil] at hsettles
      have hmatches := matches_decode h.fits h.drained hposition hconversation hsettles board
      rw [hverdict] at hmatches
      exact hmatches
  | process connection request kept =>
      obtain ⟨hconversation, hkept, hposition⟩ := hagrees
      cases request with
      | receive report =>
          cases report with
          | none => exact h.matches_run_receive board
          | some report =>
              subst hkept
              refine matches_respond_first hconfig h.fits h.drained hposition hconversation
                (.captured report.count) h.sound ?_
              simp only [step, hconversation, stepProcess]
      | send frequency =>
          subst hkept
          refine matches_respond_first hconfig h.fits h.drained hposition hconversation .sent trivial
            ?_
          simp only [step, hconversation, stepProcess]
      | config name ssid password =>
          subst hkept
          refine matches_respond_first hconfig h.fits h.drained hposition hconversation
            (.configured name ssid password) h.sound ?_
          simp only [step, hconversation, stepProcess]
  | response connection reply kept sent =>
      obtain ⟨next, hconversation, -⟩ := hagrees
      refine matches_blocked h ?_
      simp only [step, hconversation]

theorem Shows.matches_sent (hconfig : config.Valid) (h : s.Shows config v) (board : Board ω) :
    Matches config (s.sent board) (v.sent config board) := by
  have hagrees := h.agrees
  cases v with
  | ready =>
      simp only [Session.sent, hagrees.1]
      exact ⟨rfl, rfl, h⟩
  | request connection received =>
      obtain ⟨reading, hconversation, -⟩ := hagrees
      simp only [Session.sent, hconversation]
      exact ⟨rfl, rfl, h⟩
  | process connection request kept =>
      simp only [Session.sent, hagrees.1]
      exact ⟨rfl, rfl, h⟩
  | response connection reply kept sent =>
      obtain ⟨next, hconversation, rfl, hunsent⟩ := hagrees
      simp only [Session.sent, hconversation]
      refine matches_respond (s := { s with conversation := some ⟨connection, .response reply next false⟩ })
        hconfig ?_ h.drained rfl h.sound.1 hunsent rfl
      exact ⟨h.fits.limits_eq, h.fits.intake_fits, h.fits.side_eq, h.fits.swapped_eq,
        h.fits.capacity_eq⟩

/-- How a view and its board go together: a capture is armed for the request that waits for it, and from its
first pulse on. -/
structure View.Holds (config : Config) (v : View) (board : Board ω) : Prop where
  width_eq : board.station.pulseWidth = config.pulseWidth
  cursor_eq : board.station.armed = true → board.station.cursor = 0
  waits : board.station.armed = true →
    ∃ connection, v = .process connection (.receive none) []

theorem Shows.matches_edge (h : s.Shows config v) (hholds : v.Holds config board) :
    Matches config (s.edge board) (v.edge config board) := by
  cases harmed : board.station.armed with
  | false =>
      simp only [Session.edge, View.edge, Board.capture, Station.capture_of_not_armed harmed]
      exact ⟨rfl, rfl, h⟩
  | true =>
      have hcursor := hholds.cursor_eq harmed
      obtain ⟨connection, rfl⟩ := hholds.waits harmed
      obtain ⟨hconversation, -, hposition⟩ := h.agrees
      have hcapacity : s.scratch.capacity = (Buffer.new config.scratchLength).capacity :=
        h.fits.intake_fits.scratch_eq
      obtain ⟨report, station, store', store, world, hnew, hcapture, hfilled, hroom, hcount, hlength⟩ :=
        Station.exists_capture_eq harmed hcursor hcapacity board.world
      obtain ⟨limits, inbound, outbound, scratch, conversation⟩ := s
      dsimp only at hconversation hcapture
      subst hconversation
      simp only [Session.edge, View.edge, Board.capture, hcapture, hnew]
      refine ⟨rfl, rfl, ⟨h.fits.limits_eq, ⟨h.fits.intake_fits.side_eq, h.fits.intake_fits.swapped_eq,
        h.fits.intake_fits.capacity_eq, ?_⟩, h.fits.side_eq, h.fits.swapped_eq, h.fits.capacity_eq⟩,
        ⟨?_, hlength⟩, h.drained, rfl, hfilled, hposition⟩
      · exact hroom.trans h.fits.intake_fits.scratch_eq
      · rw [← hholds.width_eq]
        exact hcount

end Infrared.Session
