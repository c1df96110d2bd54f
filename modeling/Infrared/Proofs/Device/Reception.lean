import Infrared.Bench
import Infrared.Proofs.Device.Waiting

namespace Infrared

namespace Request

/-- Whether bytes that are no request have to be given up: their type is unknown, or as many bytes are there
as they announce. -/
def Overdue (config : Config) : List UInt8 → Prop
  | [] => False
  | code :: bytes =>
    code ∉ [0, 2, 4] ∨
      ∃ declared body, declared ≤ Packet.lengthLimit ∧
        bytes = Layout.number config.swapped 2 declared ++ body ∧ declared ≤ body.length

theorem not_overdue_of_waiting {config : Config} {bytes : List UInt8}
    (h : verdict config bytes = .waiting) : ¬Overdue config bytes := by
  cases bytes with
  | nil => exact id
  | cons code bytes =>
      simp only [verdict] at h
      cases hpart : Part.ofCode code with
      | error fault => simp [hpart] at h
      | ok part =>
          rw [hpart] at h
          rintro (hcode | ⟨declared, body, hlimit, rfl, hdeclared⟩)
          · rw [Part.ofCode_eq] at hpart
            simp only [List.mem_cons, List.not_mem_nil, or_false, not_or] at hcode
            rw [if_neg hcode.1, if_neg hcode.2.1, if_neg hcode.2.2] at hpart
            simp at hpart
          · have hlength := Layout.length_number config.swapped 2 declared
            have hbound : declared < Word.bound 2 := Nat.lt_succ_of_le hlimit
            dsimp only at h
            rw [tailVerdict, if_neg (by rw [List.length_append]; omega), List.take_left' hlength,
              List.drop_left' hlength, ← Layout.wire_word, Field.number_wire_word _ hbound, bodyVerdict] at h
            split at h
            · simp at h
            · split at h
              · simp at h
              · simp at h
            · split at h
              · omega
              · simp at h

end Request

namespace Device

namespace View

variable {ω : Type} [Platform ω] {v : View ω} {connection : Connection}

/-- The view after its session read bytes and came to a verdict on them. -/
def decided (v : View ω) (connection : Connection) (bytes : List UInt8) : Request.Verdict → View ω
  | .waiting => { v with session := .request connection bytes }
  | .accepted request kept =>
    { v with session := .process connection request kept, pending := true }
  | .refused =>
    { v with
      session := .ready, board := Session.View.dismiss connection v.board, pending := false }

theorem handle_receive_of_request {bytes data : List UInt8}
    (h : v.session = .request connection bytes)
    (hlength : data.length ≤ v.config.receiveBufferLength) :
    v.handle (.receive connection data) =
      v.decided connection (bytes ++ data) (Request.verdict v.config (bytes ++ data)) := by
  have hcurrent : v.isCurrent connection = true := by
    simp [isCurrent, h, Session.View.connection?]
  simp only [handle, hcurrent, if_true, h, Session.View.receive]
  rw [if_neg (Nat.not_lt.mpr hlength)]
  cases Request.verdict v.config (bytes ++ data) with
  | waiting => rfl
  | accepted request kept => rfl
  | refused => rfl

theorem handle_receive_of_label_ne (h : v.session.label ≠ "Request") (data : List UInt8) :
    v.handle (.receive connection data) = v := by
  have hsame : v.after (v.session.receive v.config data v.board) = v := by
    cases hv : v.session with
    | request connection bytes => exact absurd (by rw [hv]; rfl) h
    | ready => simp only [Session.View.receive, after, pendingAfter, ← hv]
    | process connection request kept => simp only [Session.View.receive, after, pendingAfter, ← hv]
    | response connection reply kept sent =>
        simp only [Session.View.receive, after, pendingAfter, ← hv]
  simp only [handle, hsame, ite_self]

theorem foldl_handle_receive_of_label_ne (h : v.session.label ≠ "Request")
    (fragments : List (List UInt8)) :
    fragments.foldl (fun v fragment => v.handle (.receive connection fragment)) v = v := by
  induction fragments with
  | nil => rfl
  | cons fragment fragments ih =>
      rw [List.foldl_cons, handle_receive_of_label_ne h]
      exact ih

theorem decided_eq_of_ne_waiting {verdict : Request.Verdict} (h : verdict ≠ .waiting)
    (v : View ω) (connection : Connection) (bytes more : List UInt8) :
    v.decided connection bytes verdict = v.decided connection more verdict ∧
      (v.decided connection bytes verdict).session.label ≠ "Request" := by
  cases verdict with
  | waiting => exact absurd rfl h
  | accepted request kept => exact ⟨rfl, by simp [decided, Session.View.label]⟩
  | refused => exact ⟨rfl, by simp [decided, Session.View.label]⟩

/-- However bytes are cut, what comes of them is what all of them come to. -/
theorem foldl_handle_receive {bytes : List UInt8} (h : v.session = .request connection bytes)
    (hwaiting : Request.verdict v.config bytes = .waiting) {fragments : List (List UInt8)}
    (hfragments : ∀ fragment ∈ fragments, fragment.length ≤ v.config.receiveBufferLength) :
    fragments.foldl (fun v fragment => v.handle (.receive connection fragment)) v =
      v.decided connection (bytes ++ fragments.flatten)
        (Request.verdict v.config (bytes ++ fragments.flatten)) := by
  induction fragments generalizing v bytes with
  | nil =>
      rw [List.flatten_nil, List.append_nil, hwaiting, decided, ← h]
      rfl
  | cons fragment fragments ih =>
      have hfirst := handle_receive_of_request h (hfragments fragment List.mem_cons_self)
      have hrest (other : List UInt8) (hother : other ∈ fragments) :
          other.length ≤ v.config.receiveBufferLength :=
        hfragments other (List.mem_cons_of_mem _ hother)
      rw [List.foldl_cons, List.flatten_cons, ← List.append_assoc, hfirst]
      by_cases hverdict : Request.verdict v.config (bytes ++ fragment) = .waiting
      · rw [hverdict]
        exact ih rfl hverdict hrest
      · -- The verdict stands, and the conversation takes no notice of the fragments after it.
        have hstands := Request.verdict_append_of_ne_waiting hverdict fragments.flatten
        obtain ⟨heq, hlabel⟩ := decided_eq_of_ne_waiting hverdict v connection (bytes ++ fragment)
          (bytes ++ fragment ++ fragments.flatten)
        rw [foldl_handle_receive_of_label_ne hlabel, hstands, heq]

end View

variable {ω : Type}

theorem Follows.session_eq_ready {d : Device (Traced ω)} {v : View (Traced ω)} (h : d.Follows v)
    (hfree : d.session.isAttached = false) : v.session = .ready := by
  have hconnection := h.shows.session_shows.connection?_eq
  rw [Session.isAttached, Option.isSome_eq_false_iff, Option.isNone_iff_eq_none] at hfree
  rw [Session.connection?, hfree] at hconnection
  cases hv : v.session with
  | ready => rfl
  | _ => simp [hv, Session.View.connection?] at hconnection

theorem Follows.pending_eq_false {d : Device (Traced ω)} {v : View (Traced ω)} (h : d.Follows v)
    (hfree : d.session.isAttached = false) : v.pending = false := by
  have hwaits := h.keeps.waits
  rw [h.session_eq_ready hfree] at hwaits
  exact hwaits.1

variable [Platform ω]

/-- The device after a connection was made and bytes arrived on it in fragments. -/
def received (connection : Connection) (fragments : List (List UInt8)) (d : Device (Traced ω)) :
    Device (Traced ω) :=
  fragments.foldl (fun d fragment => d.handle (.receive connection fragment))
    (d.handle (.connect connection))

theorem Reachable.received {config : Config} {d : Device (Traced ω)} (h : Reachable config d)
    (connection : Connection) (fragments : List (List UInt8)) :
    Reachable config (d.received connection fragments) := by
  have hstart : Reachable config (d.handle (.connect connection)) :=
    h.perform (.handle (.connect connection))
  rw [Device.received]
  generalize d.handle (.connect connection) = e at hstart
  induction fragments generalizing e with
  | nil => exact hstart
  | cons fragment fragments ih =>
      exact ih _ (hstart.perform (.handle (.receive connection fragment)))

theorem Follows.handle {d : Device (Traced ω)} {v : View (Traced ω)} (h : d.Follows v)
    (event : Event) : (d.handle event).Follows (v.handle event) :=
  (h.perform (.handle event)).2

theorem Follows.received {d : Device (Traced ω)} {v : View (Traced ω)} (h : d.Follows v)
    (hrunning : d.running = true) (hfree : d.session.isAttached = false) (connection : Connection)
    {fragments : List (List UInt8)}
    (hfragments : ∀ fragment ∈ fragments, fragment.length ≤ v.config.receiveBufferLength) :
    (d.received connection fragments).Follows
      (v.decided connection fragments.flatten (Request.verdict v.config fragments.flatten)) := by
  have hconnect : v.handle (.connect connection) = { v with session := .request connection [] } := by
    rw [View.handle, View.connect, if_pos ⟨h.shows.running_eq.symm.trans hrunning,
      h.session_eq_ready hfree⟩]
  have hfold := View.foldl_handle_receive (v := { v with session := .request connection [] })
    rfl rfl hfragments
  have hfollows : (d.received connection fragments).Follows
      (fragments.foldl (fun v fragment => v.handle (.receive connection fragment))
        { v with session := .request connection [] }) := by
    have hstart := h.handle (.connect connection)
    rw [hconnect] at hstart
    rw [Device.received]
    clear hfold hfragments hconnect
    generalize d.handle (.connect connection) = e at hstart
    generalize { v with session := .request connection [] } = w at hstart
    induction fragments generalizing e w with
    | nil => exact hstart
    | cons fragment fragments ih => exact ih _ _ (hstart.handle (.receive connection fragment))
  rw [hfold, List.nil_append] at hfollows
  cases hverdict : Request.verdict v.config fragments.flatten with
  | waiting => rwa [hverdict] at hfollows
  | accepted request kept => rwa [hverdict] at hfollows
  | refused => rwa [hverdict] at hfollows

/-- Whether a request was decoded on a connection, and nothing was done about it yet. -/
def Decoded (config : Config) (connection : Connection) (d : Device (Traced ω)) :
    Request.Content → Prop
  | .send frequency pulses =>
    d.session.conversation = some ⟨connection, .process (.send frequency)⟩ ∧
      d.session.scratch.filled = pulses.flatMap (Layout.pulse false config.pulseWidth)
  | .receive => d.session.conversation = some ⟨connection, .process (.receive none)⟩
  | .config name ssid password =>
    ∃ nameSpan ssidSpan passwordSpan : Span,
      d.session.conversation =
          some ⟨connection, .process (.config nameSpan ssidSpan passwordSpan)⟩ ∧
        nameSpan.read? d.session.scratch = some name ∧
        ssidSpan.read? d.session.scratch = some ssid ∧
        passwordSpan.read? d.session.scratch = some password

/-- Whether a device still reads a request on a connection. -/
def Reads (connection : Connection) (d : Device (Traced ω)) : Prop :=
  d.pending = false ∧
    ∃ reading, d.session.conversation = some ⟨connection, .request reading⟩

/-- Whether a device closed a connection since, and did nothing else but put the station to rest. -/
def Dropped (connection : Connection) (before d : Device (Traced ω)) : Prop :=
  d.session.conversation = none ∧ d.pending = false ∧
    d.board.world.calls = before.board.world.calls ++ [.close connection, .disableInterrupts]

variable {config : Config} {d e : Device (Traced ω)} {v : View (Traced ω)} {connection : Connection}
  {bytes : List UInt8}

theorem decoded_of_accepted {request : Request} {kept : List UInt8}
    (h : e.Follows (v.decided connection bytes (.accepted request kept)))
    {content : Request.Content} (hrequest : content.request = request)
    (hkept : content.kept v.config.pulseWidth = kept) : e.Decoded v.config connection content := by
  obtain ⟨hconversation, hfilled, -⟩ := h.shows.session_shows.agrees
  subst hrequest hkept
  cases content with
  | send frequency pulses => exact ⟨hconversation, hfilled⟩
  | receive => exact hconversation
  | config name ssid password =>
      have hfilled' : e.session.scratch.filled = name ++ (ssid ++ password) := hfilled
      have hlength := congrArg List.length hfilled'
      rw [List.length_append, List.length_append] at hlength
      obtain ⟨hname, hssid, hpassword⟩ := Span.of_append name ssid password
      rw [← hfilled'] at hname hssid hpassword
      refine ⟨_, _, _, hconversation, ?_, ?_, ?_⟩
      · rw [Session.read?_eq_of_le, hname]
        dsimp only
        omega
      · rw [Session.read?_eq_of_le, hssid]
        dsimp only
        omega
      · rw [Session.read?_eq_of_le, hpassword]
        dsimp only
        omega

theorem reads_of_waiting (h : e.Follows (v.decided connection bytes .waiting))
    (hpending : v.pending = false) : e.Reads connection ∧ e.board = v.board := by
  obtain ⟨reading, hconversation, -⟩ := h.shows.session_shows.agrees
  exact ⟨⟨h.shows.pending_eq.trans hpending, reading, hconversation⟩, h.shows.board_eq⟩

theorem dropped_of_refused (hboard : d.board = v.board)
    (h : e.Follows (v.decided connection bytes .refused)) : Dropped connection d e := by
  refine ⟨h.shows.session_shows.agrees.1, h.shows.pending_eq, ?_⟩
  rw [h.shows.board_eq, hboard]
  exact (Session.View.adds_dismiss connection v.board).calls_eq

/-- A device that serves nobody takes up a request exactly if the bytes of a connection begin with an
admissible one, and has then decoded that one. Bytes that an admissible request begins with are read on
without a call. All others are read on in silence, or the connection was closed; and it was closed if the
bytes are overdue. -/
theorem exists_wire_isPrefix_of_received (h : Reachable config d) (hrunning : d.running = true)
    (hfree : d.session.isAttached = false) (connection : Connection)
    (fragments : List (List UInt8))
    (hfragments : ∀ fragment ∈ fragments, fragment.length ≤ config.receiveBufferLength) :
    ((d.received connection fragments).session.label = "Process" ↔
      ∃ content : Request.Content, content.Admissible config ∧
        content.wire config <+: fragments.flatten) ∧
    (∀ content : Request.Content, content.Admissible config →
      content.wire config <+: fragments.flatten →
        (d.received connection fragments).Decoded config connection content ∧
          (d.received connection fragments).pending = true ∧
          (d.received connection fragments).board = d.board) ∧
    (∀ content : Request.Content, content.Admissible config →
      fragments.flatten <+: content.wire config → fragments.flatten ≠ content.wire config →
        (d.received connection fragments).Reads connection ∧
          (d.received connection fragments).board = d.board) ∧
    ((¬∃ content : Request.Content, content.Admissible config ∧
        content.wire config <+: fragments.flatten) →
      ((d.received connection fragments).Reads connection ∧
          (d.received connection fragments).board = d.board ∧
          ¬Request.Overdue config fragments.flatten) ∨
        Dropped connection d (d.received connection fragments)) := by
  obtain ⟨v, hfollows, rfl⟩ := h.exists_follows
  have hvalid := hfollows.keeps.valid
  have hresult := hfollows.received hrunning hfree connection hfragments
  have hlabel := hresult.shows.session_shows.label_eq
  have hboard := hfollows.shows.board_eq
  have hpending := hfollows.pending_eq_false hfree
  refine ⟨?_, ?_, ?_, ?_⟩
  · rw [hlabel]
    constructor
    · intro hprocess
      cases hverdict : Request.verdict v.config fragments.flatten with
      | waiting => simp [hverdict, View.decided, Session.View.label] at hprocess
      | refused => simp [hverdict, View.decided, Session.View.label] at hprocess
      | accepted request kept =>
          obtain ⟨content, hcontent, hwire, -, -⟩ := Request.exists_of_verdict_eq_accepted hverdict
          exact ⟨content, hcontent, hwire⟩
    · rintro ⟨content, hcontent, hwire⟩
      rw [(Request.verdict_eq_accepted_iff hvalid).mpr ⟨content, hcontent, hwire, rfl, rfl⟩]
      rfl
  · intro content hcontent hwire
    rw [(Request.verdict_eq_accepted_iff hvalid).mpr ⟨content, hcontent, hwire, rfl, rfl⟩] at hresult
    exact ⟨decoded_of_accepted hresult rfl rfl, hresult.shows.pending_eq,
      hresult.shows.board_eq.trans hboard.symm⟩
  · intro content hcontent hwire hne
    rw [Request.verdict_eq_waiting_of_isPrefix hvalid hcontent hwire hne] at hresult
    obtain ⟨hreads, hsame⟩ := reads_of_waiting hresult hpending
    exact ⟨hreads, hsame.trans hboard.symm⟩
  · intro hnone
    cases hverdict : Request.verdict v.config fragments.flatten with
    | waiting =>
        rw [hverdict] at hresult
        obtain ⟨hreads, hsame⟩ := reads_of_waiting hresult hpending
        exact .inl ⟨hreads, hsame.trans hboard.symm, Request.not_overdue_of_waiting hverdict⟩
    | refused =>
        rw [hverdict] at hresult
        exact .inr (dropped_of_refused hboard hresult)
    | accepted request kept =>
        obtain ⟨content, hcontent, hwire, -, -⟩ := Request.exists_of_verdict_eq_accepted hverdict
        exact absurd ⟨content, hcontent, hwire⟩ hnone

/-- Two pulses of 300 and 20 microseconds at 38000 Hz on a device that takes the most significant byte first, the
same on one that takes it last, and there a configuration; each in fragments that cut its numbers. -/
theorem received_sendRequest :
    let big := ((fresh {} ⟨{}, []⟩ : Device (Traced Bench)).perform .start).2
    let little := ((fresh { swapped := false } ⟨{}, []⟩ : Device (Traced Bench)).perform .start).2
    ((big.received 7 [[0, 0], [10, 0, 0, 148], [112, 0, 2, 1, 44, 0, 20]]).Decoded {} 7
        (.send 38000 [300, 20]) ∧
      (big.received 7 [[0, 0], [10, 0, 0, 148], [112, 0, 2, 1, 44, 0, 20]]).session.scratch.filled =
        [44, 1, 20, 0]) ∧
    (little.received 7 [[0, 10], [0, 112, 148, 0], [0, 2, 0, 44, 1, 20, 0]]).Decoded { swapped := false } 7
      (.send 38000 [300, 20]) ∧
    (little.received 7 [[4, 7], [0, 2, 73, 82, 1, 115, 1, 112]]).Decoded { swapped := false } 7
      (.config [73, 82] [115] [112]) := by
  intro big little
  have hbig : Reachable {} big := (reachable_fresh rfl _).perform .start
  have hlittle : Reachable { swapped := false } little := (reachable_fresh rfl _).perform .start
  obtain ⟨hbigRunning, hbigSession⟩ :=
    start_eq_of_listen (d := (fresh {} ⟨{}, []⟩ : Device (Traced Bench))) rfl rfl
  obtain ⟨hrunning, hsession⟩ :=
    start_eq_of_listen (d := (fresh { swapped := false } ⟨{}, []⟩ : Device (Traced Bench))) rfl rfl
  have hfree : little.session.isAttached = false := by rw [hsession]; rfl
  have hfirst := exists_wire_isPrefix_of_received hbig hbigRunning (by rw [hbigSession]; rfl) 7
    [[0, 0], [10, 0, 0, 148], [112, 0, 2, 1, 44, 0, 20]] (by decide)
  have hsecond := exists_wire_isPrefix_of_received hlittle hrunning hfree 7
    [[0, 10], [0, 112, 148, 0], [0, 2, 0, 44, 1, 20, 0]] (by decide)
  have hthird := exists_wire_isPrefix_of_received hlittle hrunning hfree 7
    [[4, 7], [0, 2, 73, 82, 1, 115, 1, 112]] (by decide)
  have hpulses : ∀ pulse ∈ ([300, 20] : List UInt32), pulse ≤ (default : PulseWidth).longest :=
    List.forall_mem_cons.mpr ⟨by decide, List.forall_mem_singleton.mpr (by decide)⟩
  have hsend := (hfirst.2.1 (.send 38000 [300, 20]) ⟨by decide, hpulses⟩ (by decide +kernel)).1
  refine ⟨⟨hsend, hsend.2⟩, ?_, ?_⟩
  · exact (hsecond.2.1 (.send 38000 [300, 20]) ⟨by decide, hpulses⟩ (by decide +kernel)).1
  · exact (hthird.2.1 (.config [73, 82] [115] [112])
      ⟨by decide, by decide, by decide, by decide⟩ (by decide +kernel)).1

end Device

end Infrared
