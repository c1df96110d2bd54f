import Infrared.Proofs.Device.Act
import Infrared.Proofs.Device.Adoption
import Infrared.Proofs.Waveform

namespace Infrared

namespace Request.Content

/-- Whether calls are all that a request asks for, in order: to send its pulses; or to arm a capture, which
comes to its end when the first edge arrives; or nothing. -/
def Deed (config : Config) : Content → List Call → Prop
  | .send frequency pulses, calls =>
    Waveform.Transmits config.sendPin frequency pulses calls
  | .receive, calls =>
    ∃ waiting count, (∀ call ∈ waiting, call.Aside) ∧
      calls = Station.arming config.receivePin ++
        (waiting ++ .disableInterrupts :: Station.samples config.receivePin (count + 1))
  | .config _ _ _, calls => calls = []

/-- Whether calls are what a request asks for, begun but not at its end. -/
def Begun (config : Config) : Content → List Call → Prop
  | .receive, calls =>
    ∃ waiting, (∀ call ∈ waiting, call.Aside) ∧ calls = Station.arming config.receivePin ++ waiting
  | _, _ => False

/-- Whether calls are asides, then all that a request asks for, and nothing more but asides and pieces that are
sent. -/
def Answered (config : Config) (content : Content) (calls : List Call) : Prop :=
  ∃ before deed after, calls = before ++ (deed ++ after) ∧ (∀ call ∈ before, call.Aside) ∧
    content.Deed config deed ∧ ∀ call ∈ after, call.Aside ∨ call.IsSend

/-- Whether a station has the carrier frequency that a request asks for. -/
def Tuned (station : Station) : Content → Prop
  | .send frequency _ => station.carrierFrequency = frequency
  | _ => True

/-- What a request may cause: nothing; or what it asks for as far as it has come; or all of it, and then a
reply. -/
def Course (config : Config) (station : Station) (content : Content) (calls : List Call) : Prop :=
  (∀ call ∈ calls, call.Aside) ∨
  (∃ before deed, calls = before ++ deed ∧ (∀ call ∈ before, call.Aside) ∧
    content.Begun config deed) ∨
  content.Answered config calls ∧ content.Tuned station

variable {config : Config} {content : Content} {calls more : List Call}

theorem Answered.append (h : content.Answered config calls)
    (hmore : ∀ call ∈ more, call.Aside ∨ call.IsSend) : content.Answered config (calls ++ more) := by
  obtain ⟨before, deed, after, rfl, hbefore, hdeed, hafter⟩ := h
  refine ⟨before, deed, after ++ more, by simp only [List.append_assoc], hbefore, hdeed, ?_⟩
  exact List.forall_mem_append.mpr ⟨hafter, hmore⟩

theorem Tuned.of_eq {station other : Station} (h : content.Tuned station)
    (heq : other.carrierFrequency = station.carrierFrequency) : content.Tuned other := by
  cases content with
  | send frequency pulses => exact heq.trans h
  | receive => exact h
  | config name ssid password => exact h

theorem Answered.append_asides (h : content.Answered config calls)
    (hmore : ∀ call ∈ more, call.Aside) : content.Answered config (calls ++ more) :=
  h.append fun call hcall => .inl (hmore call hcall)

end Request.Content

namespace Device

variable {ω : Type}

/-- How far a conversation has come with its request, and the calls that it has made. -/
inductive View.Stage (config : Config) (connection : Connection) (v : View (Traced ω)) :
    Request.Content → List Call → Prop
  | toSend {frequency : UInt32} {pulses : List UInt32} {kept : List UInt8} {calls : List Call}
      (hv : v.session = .process connection (.send frequency) kept)
      (hpulses : v.board.station.durations kept = pulses) (hcalls : ∀ call ∈ calls, call.Aside) :
    Stage config connection v (.send frequency pulses) calls
  | toArm {kept : List UInt8} {calls : List Call}
      (hv : v.session = .process connection (.receive none) kept) (hpending : v.pending = true)
      (hcalls : ∀ call ∈ calls, call.Aside) : Stage config connection v .receive calls
  | listening {kept : List UInt8} {before waiting : List Call}
      (hv : v.session = .process connection (.receive none) kept) (hpending : v.pending = false)
      (hpin : v.board.station.pin = config.receivePin) (hbefore : ∀ call ∈ before, call.Aside)
      (hwaiting : ∀ call ∈ waiting, call.Aside) :
    Stage config connection v .receive (before ++ (Station.arming config.receivePin ++ waiting))
  | recorded {report : Station.Report} {kept : List UInt8} {calls : List Call}
      (hv : v.session = .process connection (.receive (some report)) kept)
      (hcalls : Request.Content.receive.Answered config calls) :
    Stage config connection v .receive calls
  | toConfigure {name ssid password : List UInt8} {nameSpan ssidSpan passwordSpan : Span}
      {kept : List UInt8} {calls : List Call}
      (hv : v.session = .process connection (.config nameSpan ssidSpan passwordSpan) kept)
      (hcalls : ∀ call ∈ calls, call.Aside) :
    Stage config connection v (.config name ssid password) calls
  | replying {content : Request.Content} {reply : Reply} {kept : List UInt8} {sent : Nat}
      {calls : List Call} (hv : v.session = .response connection reply kept sent)
      (htuned : content.Tuned v.board.station) (hcalls : content.Answered config calls) :
    Stage config connection v content calls

namespace View.Stage

variable {config : Config} {connection : Connection} {v w : View (Traced ω)}
  {content : Request.Content} {calls more : List Call}

/-- Asides, and no change of the carrier frequency, leave a request on its course. -/
theorem course_append (h : v.Stage config connection content calls)
    (hfrequency : w.board.station.carrierFrequency = v.board.station.carrierFrequency)
    (hmore : ∀ call ∈ more, call.Aside) : content.Course config w.board.station (calls ++ more) := by
  cases h with
  | toSend hv hpulses hcalls => exact .inl (List.forall_mem_append.mpr ⟨hcalls, hmore⟩)
  | toArm hv hpending hcalls => exact .inl (List.forall_mem_append.mpr ⟨hcalls, hmore⟩)
  | toConfigure hv hcalls => exact .inl (List.forall_mem_append.mpr ⟨hcalls, hmore⟩)
  | listening hv hpending hpin hbefore hwaiting =>
      rw [List.append_assoc, List.append_assoc]
      refine .inr (.inl ⟨_, _, rfl, hbefore, _, ?_, rfl⟩)
      exact List.forall_mem_append.mpr ⟨hwaiting, hmore⟩
  | recorded hv hcalls => exact .inr (.inr ⟨hcalls.append_asides hmore, trivial⟩)
  | replying hv htuned hcalls =>
      exact .inr (.inr ⟨hcalls.append_asides hmore, htuned.of_eq hfrequency⟩)

theorem course (h : v.Stage config connection content calls) :
    content.Course config v.board.station calls := by
  have hcourse := h.course_append (w := v) rfl (List.forall_mem_nil Call.Aside)
  rwa [List.append_nil] at hcourse

/-- Asides leave a conversation at its stage. -/
theorem append (h : v.Stage config connection content calls) (hsession : w.session = v.session)
    (hpending : w.pending = v.pending) (hstation : w.board.station = v.board.station)
    (hmore : ∀ call ∈ more, call.Aside) : w.Stage config connection content (calls ++ more) := by
  cases h with
  | toSend hv hpulses hcalls =>
      refine .toSend (hsession.trans hv) (by rw [hstation, hpulses]) ?_
      exact List.forall_mem_append.mpr ⟨hcalls, hmore⟩
  | toArm hv hwaits hcalls =>
      refine .toArm (hsession.trans hv) (hpending.trans hwaits) ?_
      exact List.forall_mem_append.mpr ⟨hcalls, hmore⟩
  | listening hv hwaits hpin hbefore hwaiting =>
      rw [List.append_assoc, List.append_assoc]
      refine .listening (hsession.trans hv) (hpending.trans hwaits) (by rw [hstation, hpin]) hbefore ?_
      exact List.forall_mem_append.mpr ⟨hwaiting, hmore⟩
  | recorded hv hcalls => exact .recorded (hsession.trans hv) (hcalls.append_asides hmore)
  | toConfigure hv hcalls =>
      exact .toConfigure (hsession.trans hv) (List.forall_mem_append.mpr ⟨hcalls, hmore⟩)
  | replying hv htuned hcalls =>
      refine .replying (hsession.trans hv) ?_ (hcalls.append_asides hmore)
      exact htuned.of_eq (by rw [hstation])

variable [Platform ω]

/-- A conversation that goes on with its reply has done what was asked for, once. -/
theorem answered (h : v.Stage config connection content calls) (hfittings : v.board.fittings = .of config)
    (hanswer : v.answer? ≠ none) (hfrequency : w.board.station.carrierFrequency = v.frequency)
    (hmore : ∀ call ∈ more, call.Aside ∨ call.IsSend) :
    content.Answered config (calls ++ (v.deed ++ more)) ∧ content.Tuned w.board.station := by
  cases h with
  | toSend hv hpulses hcalls =>
      have hpin : v.board.sendPin = config.sendPin := congrArg Board.Fittings.sendPin hfittings
      rw [View.frequency, hv] at hfrequency
      refine ⟨⟨calls, v.deed, more, rfl, hcalls, ?_, hmore⟩, hfrequency⟩
      rw [deed, hv, hpin, ← hpulses]
      exact Waveform.transmits_calls _ _ _
  | toArm hv hpending hcalls => exact absurd (by rw [answer?, hv]) hanswer
  | listening hv hpending hpin hbefore hwaiting => exact absurd (by rw [answer?, hv]) hanswer
  | recorded hv hcalls =>
      rw [deed, hv]
      exact ⟨hcalls.append hmore, trivial⟩
  | toConfigure hv hcalls =>
      rw [deed, hv]
      exact ⟨⟨calls, [], more, rfl, hcalls, rfl, hmore⟩, trivial⟩
  | replying hv htuned hcalls =>
      rw [View.frequency, hv] at hfrequency
      rw [deed, hv]
      exact ⟨hcalls.append hmore, htuned.of_eq hfrequency⟩

/-- What one operation makes of a stage: another one, or the end of a conversation that kept to its course. -/
theorem act (h : v.Stage config connection content calls) (hfittings : v.board.fittings = .of config)
    (hact : v.Act connection w more) :
    w.Stage config connection content (calls ++ more) ∨
      w.session = .ready ∧ content.Course config w.board.station (calls ++ more) := by
  have hnot {received : List UInt8} (hv : v.session = .request connection received) : False := by
    cases h with
    | toSend hv' | toArm hv' | listening hv' | recorded hv' | toConfigure hv' | replying hv' =>
        simp [hv] at hv'
  have hreceivePin : v.board.receivePin = config.receivePin :=
    congrArg Board.Fittings.receivePin hfittings
  cases hact with
  | aside hsession hpending hstation hcalls => exact .inl (h.append hsession hpending hstation hcalls)
  | ended hready hfrequency hcalls => exact .inr ⟨hready, h.course_append hfrequency hcalls⟩
  | read hv hw => exact (hnot hv).elim
  | accepted hv hverdict hw => exact (hnot hv).elim
  | armed hv hpending hsession hwaits hpin =>
      rw [hreceivePin] at hpin ⊢
      cases h with
      | toArm hv' hpending' hcalls =>
          rw [← List.append_nil (Station.arming config.receivePin)]
          exact .inl (.listening (hsession.trans hv) hwaits hpin hcalls (by simp))
      | listening hv' hpending' => simp [hpending] at hpending'
      | toSend hv' | recorded hv' | toConfigure hv' | replying hv' => simp [hv] at hv'
  | @recorded _ _ _ count hv hwaits hw =>
      cases h with
      | @listening _ before waiting hv' hpending' hpin hbefore hwaiting =>
          rw [hpin]
          refine .inl (.recorded hw ⟨before, _, [], ?_, hbefore, ⟨waiting, count, hwaiting, rfl⟩,
            by simp⟩)
          simp only [List.append_assoc, List.append_nil]
      | toArm hv' hpending' => simp [hwaits] at hpending'
      | toSend hv' | recorded hv' | toConfigure hv' | replying hv' => simp [hv] at hv'
  | spoke hanswer hw hfrequency hcalls =>
      have hanswered := h.answered hfittings hanswer hfrequency hcalls
      rcases hw with hready | ⟨reply, kept, sent, hresponse⟩
      · exact .inr ⟨hready, .inr (.inr hanswered)⟩
      · exact .inl (.replying hresponse hanswered.2 hanswered.1)

theorem course_of_act (h : v.Stage config connection content calls)
    (hfittings : v.board.fittings = .of config) (hact : v.Act connection w more) :
    content.Course config w.board.station (calls ++ more) := by
  rcases h.act hfittings hact with hstage | ⟨-, hcourse⟩
  · exact hstage.course
  · exact hcourse

end View.Stage

variable [Platform ω] {config : Config} {connection : Connection} {d : Device (Traced ω)}
  {v : View (Traced ω)} {content : Request.Content} {calls : List Call} {ops : List (Operation ω)}

/-- The calls that a run makes. -/
def made (d : Device (Traced ω)) : List (Operation ω) → List Call
  | [] => []
  | op :: ops => (d.added op).map (·.call) ++ (d.perform op).2.made ops

theorem made_append (d : Device (Traced ω)) (ops more : List (Operation ω)) :
    d.made (ops ++ more) = d.made ops ++ (d.run ops).2.made more := by
  induction ops generalizing d with
  | nil => rfl
  | cons op ops ih =>
      rw [List.cons_append, made, made, ih, List.append_assoc]
      rfl

omit [Platform ω] in
/-- The conversation of a device with a request that is taken up, told of its view. -/
theorem Follows.session_eq_process (h : d.Follows v) {request : Request}
    (hd : d.session.conversation = some ⟨connection, .process request⟩) :
    v.session = .process connection request d.session.scratch.filled := by
  have hagrees := h.shows.session_shows.agrees
  cases hv : v.session with
  | ready =>
      rw [hv] at hagrees
      simp [hagrees.1] at hd
  | request current received =>
      rw [hv] at hagrees
      obtain ⟨reading, hconversation, -⟩ := hagrees
      simp [hconversation] at hd
  | process current other kept =>
      rw [hv] at hagrees
      obtain ⟨hconversation, rfl, -⟩ := hagrees
      rw [hconversation] at hd
      simp only [Option.some.injEq, Session.Conversation.mk.injEq, Session.Phase.process.injEq] at hd
      obtain ⟨rfl, rfl⟩ := hd
      rfl
  | response current reply kept sent =>
      rw [hv] at hagrees
      obtain ⟨next, hconversation, -⟩ := hagrees
      simp [hconversation] at hd

omit [Platform ω] in
theorem Follows.session_ne_request_of_decoded (h : d.Follows v)
    (hdecoded : d.Decoded config connection content) {received : List UInt8} :
    v.session ≠ .request connection received := by
  obtain ⟨request, hconversation⟩ : ∃ request,
      d.session.conversation = some ⟨connection, .process request⟩ := by
    cases content with
    | send frequency pulses => exact ⟨_, hdecoded.1⟩
    | receive => exact ⟨_, hdecoded⟩
    | config name ssid password =>
        obtain ⟨nameSpan, ssidSpan, passwordSpan, hconversation, -⟩ := hdecoded
        exact ⟨_, hconversation⟩
  rw [h.session_eq_process hconversation]
  simp

omit [Platform ω] in
theorem durations_of_admissible (h : v.Keeps) {frequency : UInt32} {pulses : List UInt32}
    (hadmissible : (Request.Content.send frequency pulses).Admissible v.config) :
    v.board.station.durations (pulses.flatMap (Layout.pulse false v.config.pulseWidth)) = pulses := by
  obtain ⟨hcount, hpulses⟩ := hadmissible
  have hlimit := v.config.pulsesMax.toNat_lt
  have hdurations := @Station.durations_flatMap_encode v.board.station pulses (by omega)
  have hkept := Request.Content.kept_send v.config.pulseWidth frequency pulses
  rw [Request.Content.kept] at hkept
  rw [h.board_keeps.width_eq] at hdurations
  rw [hkept, hdurations, PulseWidth.map_saturate_of_le hpulses]

/-- A request that is taken up is at its first stage. -/
theorem View.stage_of_accepted (h : v.Keeps) {bytes kept : List UInt8} {request : Request}
    (hcontent : content.Admissible v.config) (hrequest : content.request = request)
    (hkept : content.kept v.config.pulseWidth = kept) (hcalls : ∀ call ∈ calls, call.Aside) :
    (v.decided connection bytes (.accepted request kept)).Stage v.config connection content calls := by
  subst hrequest hkept
  cases content with
  | send frequency pulses => exact .toSend rfl (durations_of_admissible h hcontent) hcalls
  | receive => exact .toArm rfl rfl hcalls
  | config name ssid password => exact .toConfigure rfl hcalls

omit [Platform ω] in
/-- The stage of a conversation is one of any request that it can be said to have decoded. -/
theorem Follows.stage_of_decoded (h : d.Follows v) {other : Request.Content}
    (hstage : v.Stage v.config connection other calls) (hcontent : content.Admissible v.config)
    (hdecoded : d.Decoded v.config connection content) : v.Stage v.config connection content calls := by
  cases content with
  | send frequency pulses =>
      obtain ⟨hconversation, hkept⟩ := hdecoded
      have hv := h.session_eq_process hconversation
      rw [hkept] at hv
      cases hstage with
      | toSend hv' hpulses hcalls => exact .toSend hv (durations_of_admissible h.keeps hcontent) hcalls
      | toArm hv' | listening hv' | recorded hv' | toConfigure hv' | replying hv' => simp [hv] at hv'
  | receive =>
      have hv := h.session_eq_process hdecoded
      cases hstage with
      | toArm hv' hpending hcalls => exact .toArm hv' hpending hcalls
      | listening hv' hpending hpin hbefore hwaiting => exact .listening hv' hpending hpin hbefore hwaiting
      | toSend hv' | recorded hv' | toConfigure hv' | replying hv' => simp [hv] at hv'
  | config name ssid password =>
      obtain ⟨nameSpan, ssidSpan, passwordSpan, hconversation, -⟩ := hdecoded
      have hv := h.session_eq_process hconversation
      cases hstage with
      | toConfigure hv' hcalls => exact .toConfigure hv' hcalls
      | toSend hv' | toArm hv' | listening hv' | recorded hv' | replying hv' => simp [hv] at hv'

/-- While a conversation lasts its request goes from stage to stage. -/
theorem Follows.stage_run (h : d.Follows v) (hfittings : v.board.fittings = .of v.config)
    (hstage : v.Stage v.config connection content calls) (hlasts : d.Lasts connection ops) :
    (v.run ops).2.Stage v.config connection content (calls ++ d.made ops) := by
  induction ops generalizing d v calls with
  | nil => rwa [made, List.append_nil]
  | cons op ops ih =>
      have hnext := (h.perform op).2
      have hserved := connection?_of_lasts hlasts.2
      rw [hnext.shows.session_shows.connection?_eq] at hserved
      have hconfig := v.config_perform op
      rcases hstage.act hfittings (h.act hlasts.1 op) with hstage' | ⟨hready, -⟩
      · have hlast := ih hnext (by rw [View.fittings_perform h.keeps.valid, hfittings, hconfig])
          (by rwa [hconfig]) hlasts.2
        rwa [hconfig, List.append_assoc] at hlast
      · simp [hready, Session.View.connection?] at hserved

/-- A conversation that reads its request makes asides only. -/
theorem View.Act.aside_of_request {w : View (Traced ω)} {received : List UInt8} {more : List Call}
    (h : v.Act connection w more) (hv : v.session = .request connection received) :
    ∀ call ∈ more, call.Aside := by
  cases h with
  | aside hsession hpending hstation hcalls => exact hcalls
  | ended hready hfrequency hcalls => exact hcalls
  | read hv' hw => exact List.forall_mem_nil _
  | accepted hv' hverdict hw => exact List.forall_mem_nil _
  | armed hv' | recorded hv' => simp [hv] at hv'
  | spoke hanswer => exact absurd (by rw [View.answer?, hv]) hanswer

/-- A conversation that reads its request reads on, or takes one up, or ends. -/
theorem View.Act.reads_or_takes {w : View (Traced ω)} {received : List UInt8} {more : List Call}
    (h : v.Act connection w more) (hv : v.session = .request connection received)
    (hready : w.session ≠ .ready) :
    (∃ received, w.session = .request connection received) ∨
      ∃ bytes, ∃ content : Request.Content, content.Admissible v.config ∧
        w = v.decided connection bytes
          (.accepted content.request (content.kept v.config.pulseWidth)) := by
  cases h with
  | aside hsession hpending hstation hcalls => exact .inl ⟨received, hsession.trans hv⟩
  | ended hw => exact absurd hw hready
  | read hv' hw => exact .inl ⟨_, hw⟩
  | @accepted _ bytes _ _ hv' hverdict hw =>
      obtain ⟨content, hcontent, -, rfl, rfl⟩ := Request.exists_of_verdict_eq_accepted hverdict
      exact .inr ⟨bytes, content, hcontent, hw⟩
  | armed hv' | recorded hv' => simp [hv] at hv'
  | spoke hanswer => exact absurd (by rw [View.answer?, hv]) hanswer

/-- While a conversation lasts its request is read, with asides, until one is decoded. -/
theorem Follows.reads_or_stage_run (h : d.Follows v) (hfittings : v.board.fittings = .of v.config)
    {received : List UInt8} (hv : v.session = .request connection received)
    (hcalls : ∀ call ∈ calls, call.Aside) (hlasts : d.Lasts connection ops) :
    (∃ received, (v.run ops).2.session = .request connection received) ∧
        (∀ call ∈ calls ++ d.made ops, call.Aside) ∨
      ∃ before after content, ops = before ++ after ∧ content.Admissible v.config ∧
        (d.run before).2.Decoded v.config connection content ∧
        (v.run ops).2.Stage v.config connection content (calls ++ d.made ops) := by
  induction ops generalizing d v calls received with
  | nil =>
      rw [made, List.append_nil]
      exact .inl ⟨⟨received, hv⟩, hcalls⟩
  | cons op ops ih =>
      have hnext := (h.perform op).2
      have hconfig := v.config_perform op
      have hfittings' : (v.perform op).2.board.fittings = .of (v.perform op).2.config := by
        rw [View.fittings_perform h.keeps.valid, hfittings, hconfig]
      have hready : (v.perform op).2.session ≠ .ready := by
        intro hready
        have hserved := connection?_of_lasts hlasts.2
        rw [hnext.shows.session_shows.connection?_eq] at hserved
        simp [hready, Session.View.connection?] at hserved
      have hact := h.act hlasts.1 op
      have hnew := List.forall_mem_append.mpr ⟨hcalls, hact.aside_of_request hv⟩
      rw [made, ← List.append_assoc]
      rcases hact.reads_or_takes hv hready with ⟨more, hmore⟩ | ⟨bytes, content, hcontent, hw⟩
      · have hlast := ih hnext hfittings' hmore hnew hlasts.2
        rw [hconfig] at hlast
        refine hlast.imp_right ?_
        rintro ⟨before, after, content, rfl, hcontent, hdecoded, hstage⟩
        exact ⟨op :: before, after, content, rfl, hcontent, hdecoded, hstage⟩
      · have hdecoded : (d.perform op).2.Decoded v.config connection content := by
          rw [hw] at hnext
          exact decoded_of_accepted hnext rfl rfl
        have hstage : (v.perform op).2.Stage v.config connection content
            (calls ++ (d.added op).map (·.call)) := by
          rw [hw]
          exact View.stage_of_accepted h.keeps hcontent rfl rfl hnew
        rw [← hconfig] at hstage
        have hlast := hnext.stage_run hfittings' hstage hlasts.2
        rw [hconfig] at hlast
        exact .inr ⟨[op], ops, content, rfl, hcontent, hdecoded, hlast⟩

theorem lasts_of_append {more : List (Operation ω)} (h : d.Lasts connection (ops ++ more)) :
    d.Lasts connection ops ∧ (d.run ops).2.Lasts connection more := by
  induction ops generalizing d with
  | nil => exact ⟨connection?_of_lasts h, h⟩
  | cons op ops ih =>
      obtain ⟨hserved, hnext⟩ := h
      exact ⟨⟨hserved, (ih hnext).1⟩, (ih hnext).2⟩

theorem connection?_run_of_lasts (h : d.Lasts connection ops) :
    (d.run ops).2.session.connection? = some connection := by
  rw [← List.append_nil ops] at h
  exact (lasts_of_append h).2

/-- Once a request is decoded its conversation is at a stage of it. -/
theorem Follows.stage_run_of_decoded (h : d.Follows v) (hfittings : v.board.fittings = .of v.config)
    {received : List UInt8} (hv : v.session = .request connection received)
    (hlasts : d.Lasts connection ops) {before after : List (Operation ω)}
    (hops : ops = before ++ after) (hcontent : content.Admissible v.config)
    (hdecoded : (d.run before).2.Decoded v.config connection content) :
    (v.run ops).2.Stage v.config connection content (d.made ops) := by
  subst hops
  have hlast := (h.run before).2
  have hconfig := v.config_run before
  rcases h.reads_or_stage_run hfittings hv (List.forall_mem_nil Call.Aside)
      (lasts_of_append hlasts).1 with
    ⟨⟨more, hreads⟩, -⟩ | ⟨-, -, other, -, -, -, hother⟩
  · exact absurd hreads (hlast.session_ne_request_of_decoded hdecoded)
  · rw [← hconfig] at hother hcontent hdecoded
    have hstage := (hlast.stage_of_decoded hother hcontent hdecoded)
    have hend := hlast.stage_run (by rw [View.fittings_run h.keeps.valid, hfittings, hconfig]) hstage
      (lasts_of_append hlasts).2
    rw [hconfig, ← View.run_append, List.nil_append, ← made_append] at hend
    exact hend

/-- A connection that a free device serves once it was made is one of which nothing was read yet. -/
theorem Follows.handle_connect (h : d.Follows v) (hfree : d.session.isAttached = false)
    (hserved : (d.handle (.connect connection)).session.connection? = some connection) :
    v.handle (.connect connection) = { v with session := .request connection [] } := by
  have hready := h.session_eq_ready hfree
  rw [(h.handle (.connect connection)).shows.session_shows.connection?_eq, View.handle] at hserved
  rw [View.handle]
  by_cases hidle : v.running = true ∧ v.session = .ready
  · rw [View.connect, if_pos hidle]
  · rw [View.connect, if_neg hidle] at hserved
    simp [hready, Session.View.connection?] at hserved

/-- A request that a conversation decodes causes what it asks for once at most, in order and before the first
piece of the reply, and there is no reply without it; a conversation that decodes none causes nothing. Both
hold to the operation that ends the conversation, if one does. -/
theorem Reachable.causes (h : Reachable config d) (hfree : d.session.isAttached = false)
    (connection : Connection) (hlasts : (d.handle (.connect connection)).Lasts connection ops)
    (op : Operation ω) :
    (∀ before after content, ops = before ++ after → content.Admissible config →
      ((d.handle (.connect connection)).run before).2.Decoded config connection content →
        content.Course config ((d.handle (.connect connection)).run (ops ++ [op])).2.board.station
          ((d.handle (.connect connection)).made (ops ++ [op]))) ∧
    ((¬∃ before after content, ops = before ++ after ∧ content.Admissible config ∧
        ((d.handle (.connect connection)).run before).2.Decoded config connection content) →
      ∀ call ∈ (d.handle (.connect connection)).made (ops ++ [op]), call.Aside) := by
  obtain ⟨v, hfollows, rfl, hfittings, -⟩ := h.exists_tracks
  have hbegun := hfollows.handle (.connect connection)
  rw [hfollows.handle_connect hfree (connection?_of_lasts hlasts)] at hbegun
  generalize d.handle (.connect connection) = e at hbegun hlasts ⊢
  have hlast := (hbegun.run ops).2
  have hact := hlast.act (connection?_run_of_lasts hlasts) op
  rw [run_append, made_append, made, made, List.append_nil]
  constructor
  · intro before after content hops hcontent hdecoded
    have hstage := hbegun.stage_run_of_decoded hfittings rfl hlasts hops hcontent hdecoded
    have hcourse := hstage.course_of_act
      ((View.fittings_run hbegun.keeps.valid ops).trans hfittings) hact
    rwa [← (hlast.perform op).2.shows.board_eq] at hcourse
  · intro hnone
    rcases hbegun.reads_or_stage_run hfittings rfl (List.forall_mem_nil Call.Aside) hlasts with
      ⟨⟨received, hreads⟩, hcalls⟩ | ⟨before, after, content, hops, hcontent, hdecoded, -⟩
    · exact List.forall_mem_append.mpr ⟨hcalls, hact.aside_of_request hreads⟩
    · exact absurd ⟨before, after, content, hops, hcontent, hdecoded⟩ hnone

/-- Two pulses of half a millisecond at 38 kHz are sent, and then the reply is. -/
theorem answered_of_sendRequest :
    let d := ((fresh {} ⟨{}, []⟩ : Device (Traced Bench)).perform .start).2.handle (.connect 7)
    let request : Operation Bench :=
      .handle (.receive 7 [0, 0, 10, 0, 0, 0x94, 0x70, 0, 2, 1, 0xF4, 1, 0xF4])
    (d.run [request]).2.Decoded {} 7 (.send 38000 [500, 500]) ∧ d.Lasts 7 [request, .runPending] ∧
      (Request.Content.send 38000 [500, 500]).Answered {}
        (d.made [request, .runPending, .handle (.sent 7)]) := by
  intro d request
  have hfresh : Reachable {} (fresh {} ⟨{}, []⟩ : Device (Traced Bench)) := reachable_fresh rfl _
  have hdecoded : (d.run [request]).2.Decoded {} 7 (.send 38000 [500, 500]) :=
    ⟨by decide +kernel, by decide +kernel⟩
  have hlasts : d.Lasts 7 [request, .runPending] := by
    refine ⟨by decide +kernel, by decide +kernel, ?_⟩
    rw [Lasts]
    decide +kernel
  have hadmissible : (Request.Content.send 38000 [500, 500]).Admissible {} := by
    refine ⟨by decide, List.forall_mem_cons.mpr ⟨by decide, ?_⟩⟩
    exact List.forall_mem_singleton.mpr (by decide)
  have hcourse := ((hfresh.perform .start).causes (by decide +kernel) 7 hlasts (.handle (.sent 7))).1
    [request] [.runPending] (.send 38000 [500, 500]) rfl hadmissible hdecoded
  refine ⟨hdecoded, hlasts, ?_⟩
  rcases hcourse with hasides | ⟨-, -, -, -, ⟨⟩⟩ | ⟨hanswered, -⟩
  · have hsend : Call.send 7 [1, 0, 0] ∈ d.made [request, .runPending, .handle (.sent 7)] := by
      decide +kernel
    exact absurd trivial (hasides _ hsend).2
  · exact hanswered

end Device

end Infrared
