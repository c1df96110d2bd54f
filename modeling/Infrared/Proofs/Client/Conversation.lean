import Infrared.Proofs.Bench.Recording
import Infrared.Proofs.Request.Refusal
import Infrared.Proofs.Waveform

namespace Infrared

namespace Call

theorem flatMap_sentOn_eq_nil {calls : List Call} (h : ∀ call ∈ calls, ¬call.IsSend)
    (connection : Connection) : calls.flatMap (sentOn connection) = [] := by
  rw [List.flatMap_eq_nil_iff]
  intro call hcall
  cases call with
  | send other data => exact absurd trivial (h _ hcall)
  | _ => rfl

theorem flatMap_sentOn_send (connection : Connection) (pieces : List (List UInt8)) :
    (pieces.map (send connection)).flatMap (sentOn connection) = pieces.flatten := by
  induction pieces with
  | nil => rfl
  | cons piece pieces ih =>
      rw [List.map_cons, List.flatMap_cons, ih, sentOn, if_pos rfl, List.flatten_cons]

end Call

namespace Bench

open Device

/-- All of a reply is sent, whatever else is done in the conversation. -/
theorem sentOn_reply {config : Config} (hvalid : config.Valid) (connection : Connection)
    (answer : Answer) {before told : List Call} (hbefore : ∀ call ∈ before, ¬call.IsSend)
    (htold : ∀ call ∈ told, ¬call.IsSend) :
    (before ++ ((pieces config answer).map (Call.send connection) ++
      (told ++ [Call.close connection, .disableInterrupts]))).flatMap (Call.sentOn connection) =
        answer.wire config := by
  have hsend := hvalid.headLength_le_send
  have hclosing : ∀ call ∈ [Call.close connection, .disableInterrupts], ¬call.IsSend := by
    simp [Call.IsSend]
  simp only [Packet.headLength] at hsend
  rw [List.flatMap_append, List.flatMap_append, List.flatMap_append,
    Call.flatMap_sentOn_eq_nil hbefore, Call.flatMap_sentOn_eq_nil htold,
    Call.flatMap_sentOn_eq_nil hclosing, Call.flatMap_sentOn_send, pieces, flatten_cut (by omega),
    List.nil_append, List.append_nil, List.append_nil]

namespace Setting

variable {config : Config} {client : Client} {d : Device Bench} {connection : Connection}
  {chunk writeMax : Nat} {signal : List UInt32} {request : List UInt8}

theorem attended_opened (d : Device Bench) (connection : Connection) (signal : List UInt32)
    (chunk writeMax : Nat) (request : List UInt8) :
    ((Loopback.opened d connection signal chunk writeMax).posted request).attended =
      Loopback.offerSignal signal (deliver connection chunk request
        (d.handle (.connect connection))) := by
  have hall : ((#[] : Array UInt8) ++ request).toList = request := by simp
  show Loopback.offerSignal signal (deliver connection chunk ((#[] : Array UInt8) ++ request).toList
    (d.handle (.connect connection))) = _
  rw [hall]

/-- A request that is answered has the client get the body of the reply. -/
theorem exists_exchange_of_answer (h : Setting config client d connection chunk writeMax)
    {answer : Answer} {before told : List Call}
    (hrests : Rests config (before ++ ((pieces config answer).map (.send connection) ++
        (told ++ [.close connection, .disableInterrupts])))
      d.board (Loopback.offerSignal signal
        (deliver connection chunk request (d.handle (.connect connection)))))
    (hbefore : ∀ call ∈ before, ¬call.IsSend) (htold : ∀ call ∈ told, ¬call.IsSend)
    (hlt : answer.bodyLength config.pulseWidth < 65536) :
    ∃ l, client.exchange (.ok request) answer.kind
          (Loopback.opened d connection signal chunk writeMax) =
        (.ok ((answer.body config.pulseWidth).flatMap (Field.wire config.swapped)), l) ∧
      Settled (before ++ ((pieces config answer).map (.send connection) ++
        (told ++ [.close connection, .disableInterrupts]))) d l.device ∧
      l.device.board.name = (Loopback.offerSignal signal
        (deliver connection chunk request (d.handle (.connect connection)))).board.name ∧
      l.device.board.beacon = (Loopback.offerSignal signal
        (deliver connection chunk request (d.handle (.connect connection)))).board.beacon := by
  obtain ⟨hvalid, -⟩ := h.shows_ready
  have hattended := attended_opened d connection signal chunk writeMax request
  rw [← hattended] at hrests ⊢
  obtain ⟨hclient, hname, hbeacon, hsettled⟩ := Loopback.serve_eq hrests h.takeSent_eq
  have hsent := sentOn_reply hvalid connection answer hbefore htold
  rw [Client.exchange_eq h.writeMax_pos, Client.readReply_of_wire h.swapped_eq hlt rfl
    (hclient.trans hsent)]
  exact ⟨_, rfl, hsettled, hname, hbeacon⟩

/-- A request that is refused has the client find itself disconnected. -/
theorem exists_exchange_of_refused (h : Setting config client d connection chunk writeMax)
    (hverdict : Request.verdict config request = .refused) (signal : List UInt32)
    (kind : Packet.Kind) :
    ∃ l, client.exchange (.ok request) kind (Loopback.opened d connection signal chunk writeMax) =
        (.error .disconnected, l) ∧
      Settled [.close connection, .disableInterrupts] d l.device ∧
      l.device.board.name = d.board.name ∧ l.device.board.beacon = d.board.beacon := by
  have hrests := h.rests_of_refused hverdict
  have hoff := hrests.offerSignal_eq rfl signal
  have hboard := (h.deliver_of_refused hverdict).board_eq
  rw [← hoff, ← attended_opened d connection signal chunk writeMax request] at hrests hboard
  obtain ⟨hclient, hname, hbeacon, hsettled⟩ := Loopback.serve_eq hrests h.takeSent_eq
  rw [Client.exchange_eq h.writeMax_pos, Client.readReply_of_nil rfl hclient]
  refine ⟨_, rfl, hsettled, ?_, ?_⟩
  · exact (hname.trans (congrArg Board.name hboard)).trans rfl
  · exact (hbeacon.trans (congrArg Board.beacon hboard)).trans rfl

/-- A device with a listener that was started, and a client as they are by default. -/
theorem setting_start : Setting {} {} (((fresh {} {} : Device Bench).act .setListener).act .start) 7 4 6 := by
  have hfresh : Arises {} (fresh {} {} : Device Bench) := .new rfl
  refine ⟨(hfresh.act .setListener).act .start, rfl, rfl, rfl, rfl, rfl, ?_, ?_, ?_⟩
  · decide
  · decide
  · decide

theorem exists_send_of_few (h : Setting config client d connection chunk writeMax)
    (hwidth : client.pulseWidth = config.pulseWidth) (signal : List UInt32) (frequency : UInt32)
    {pulses : List UInt32} (hshort : Packet.pulsesHeadLength +
      pulses.length * config.pulseWidth.bytes ≤ Packet.lengthLimit)
    (hfew : pulses.length ≤ config.pulsesMax.toNat) :
    ∃ l, client.send frequency pulses (Loopback.opened d connection signal chunk writeMax) =
        (.ok (), l) ∧
      Settled (Waveform.calls config.sendPin (Waveform.halfPeriod frequency)
          (pulses.map config.pulseWidth.saturate) ++
        ((pieces config .sent).map (.send connection) ++ [.close connection, .disableInterrupts]))
        d l.device := by
  have hrests := h.rests_of_send frequency hfew
  have hoff := hrests.offerSignal_eq (by simp) signal
  have hnone : ∀ call ∈ ([] : List Call), ¬call.IsSend := List.forall_mem_nil _
  have hlt : Answer.sent.bodyLength config.pulseWidth < 65536 := Nat.zero_lt_succ _
  rw [← hoff] at hrests
  obtain ⟨l, hexchange, hsettled, -⟩ := h.exists_exchange_of_answer hrests
    (fun _ => Waveform.not_isSend_of_mem_calls) hnone hlt
  rw [Answer.kind] at hexchange
  rw [Client.send, Client.sendRequest_eq h.swapped_eq hwidth frequency hshort, hexchange]
  exact ⟨l, rfl, hsettled⟩

theorem exists_send_of_many (h : Setting config client d connection chunk writeMax)
    (hwidth : client.pulseWidth = config.pulseWidth) (signal : List UInt32) (frequency : UInt32)
    {pulses : List UInt32} (hshort : Packet.pulsesHeadLength +
      pulses.length * config.pulseWidth.bytes ≤ Packet.lengthLimit)
    (hmany : config.pulsesMax.toNat < pulses.length) :
    ∃ l, client.send frequency pulses (Loopback.opened d connection signal chunk writeMax) =
        (.error .disconnected, l) ∧
      Settled [.close connection, .disableInterrupts] d l.device := by
  obtain ⟨hvalid, -⟩ := h.shows_ready
  have hlt : (Request.Content.send frequency
      (pulses.map config.pulseWidth.saturate)).bodyLength config.pulseWidth < 65536 := by
    rw [Request.Content.bodyLength, List.length_map]
    exact Nat.lt_succ_of_le hshort
  have hlength : config.pulsesMax.toNat < (pulses.map config.pulseWidth.saturate).length := by
    rwa [List.length_map]
  have hrefused := Request.verdict_send_eq_refused hvalid hlt hlength
  obtain ⟨l, hexchange, hsettled, -⟩ := h.exists_exchange_of_refused hrefused signal .sendResponse
  rw [Client.send, Client.sendRequest_eq h.swapped_eq hwidth frequency hshort, hexchange]
  exact ⟨l, rfl, hsettled⟩

/-- The signal that a client sends is the one that is transmitted, each of its pulses as long as the width
allows; a signal that the device has no room for drives no pin. -/
theorem send_transmits (h : Setting config client d connection chunk writeMax)
    (hwidth : client.pulseWidth = config.pulseWidth) (signal : List UInt32) (frequency : UInt32)
    (pulses : List UInt32) :
    (Packet.lengthLimit < Packet.pulsesHeadLength + pulses.length * config.pulseWidth.bytes →
      client.send frequency pulses (Loopback.opened d connection signal chunk writeMax) =
        (.error .payloadTooLarge, Loopback.opened d connection signal chunk writeMax)) ∧
    (Packet.pulsesHeadLength + pulses.length * config.pulseWidth.bytes ≤ Packet.lengthLimit →
      (pulses.length ≤ config.pulsesMax.toNat →
        (client.send frequency pulses (Loopback.opened d connection signal chunk writeMax)).1 =
            .ok () ∧
          ∃ calls, Waveform.Transmits config.sendPin frequency (pulses.map config.pulseWidth.saturate) calls ∧
            Settled (calls ++
              ((pieces config .sent).map (.send connection) ++ [.close connection, .disableInterrupts]))
              d (client.send frequency pulses
                (Loopback.opened d connection signal chunk writeMax)).2.device) ∧
      (config.pulsesMax.toNat < pulses.length →
        (client.send frequency pulses (Loopback.opened d connection signal chunk writeMax)).1 =
            .error .disconnected ∧
          Settled [.close connection, .disableInterrupts] d (client.send frequency pulses
            (Loopback.opened d connection signal chunk writeMax)).2.device)) := by
  constructor
  · intro hlong
    exact Client.send_eq_error hwidth frequency hlong _
  · intro hshort
    constructor
    · intro hfew
      obtain ⟨l, hsend, hsettled⟩ := h.exists_send_of_few hwidth signal frequency hshort hfew
      rw [hsend]
      exact ⟨rfl, _, Waveform.transmits_calls _ _ _, hsettled⟩
    · intro hmany
      obtain ⟨l, hsend, hsettled⟩ := h.exists_send_of_many hwidth signal frequency hshort hmany
      rw [hsend]
      exact ⟨rfl, hsettled⟩

theorem send_transmits_of_start :
    (({} : Client).send 38000 [900, 70000] (Loopback.opened
        (((fresh {} {} : Device Bench).act .setListener).act .start) 7 [] 4 6)).1 = .ok () ∧
      (({} : Client).send 38000 (List.replicate 129 900) (Loopback.opened
        (((fresh {} {} : Device Bench).act .setListener).act .start) 7 [] 4 6)).1 =
          .error .disconnected := by
  have hfew := (setting_start.send_transmits rfl [] 38000 [900, 70000]).2 (by decide)
  have hmany := (setting_start.send_transmits rfl [] 38000 (List.replicate 129 900)).2
    (by decide +kernel)
  exact ⟨(hfew.1 (by decide)).1, (hmany.2 (by decide +kernel)).1⟩

/-- The signal that a client receives is the one that was on the air, as far as the device has room for it. The
capture of it is not given up, so the client does get a reply. -/
theorem receive_records (h : Setting config client d connection chunk writeMax)
    (hwidth : client.pulseWidth = config.pulseWidth) (htick : d.board.world.tick = 1)
    (hsignal : signal ≠ []) (hpulses : ∀ pulse ∈ signal, 1 ≤ pulse ∧ pulse < config.pulseTimeout)
    (hsum : (signal.map UInt32.toNat).sum < config.signalTimeout.toNat) :
    (client.receive (Loopback.opened d connection signal chunk writeMax)).1 =
        .ok ⟨0, (signal.take config.pulsesMax.toNat).map config.pulseWidth.saturate⟩ ∧
      Settled ([.input config.receivePin, .disableInterrupts, .clearEdge config.receivePin,
          .attachEdge config.receivePin, .enableInterrupts, .disableInterrupts] ++
        ((pieces config (.captured ((signal.take config.pulsesMax.toNat).map
          config.pulseWidth.saturate))).map (.send connection) ++
            [.close connection, .disableInterrupts]))
        d (client.receive (Loopback.opened d connection signal chunk writeMax)).2.device ∧
      CaptureEnds (update (fun w => w.schedule signal 0) (deliver connection chunk
        (Request.Content.receive.wire config) (d.handle (.connect connection)))) := by
  obtain ⟨hvalid, -⟩ := h.shows_ready
  have hlistens := h.listens_of_receive
  have htick' := hlistens.makes.tick_eq.trans htick
  have hrests := hlistens.rests_offerSignal hvalid h.refusesSend_eq htick' hsignal hpulses hsum
  generalize hrecorded : (signal.take config.pulsesMax.toNat).map config.pulseWidth.saturate = recorded
    at hrests ⊢
  have hfew : recorded.length ≤ config.pulsesMax.toNat := by
    rw [← hrecorded, List.length_map, List.length_take]
    exact Nat.min_le_left _ _
  have hlongest : ∀ pulse ∈ recorded, pulse ≤ config.pulseWidth.longest := by
    rw [← hrecorded]
    exact fun _ => PulseWidth.le_longest_of_mem_map_saturate
  have hlt : (Answer.captured recorded).bodyLength config.pulseWidth < 65536 := by
    have hbody := hvalid.bodyLength_le
    have hroom := Nat.mul_le_mul_right config.pulseWidth.bytes hfew
    rw [Config.scratchLength, Packet.lengthLimit] at hbody
    rw [Answer.bodyLength]
    omega
  have hmax := config.pulsesMax.toNat_lt
  have hbefore : ∀ call ∈ [Call.input config.receivePin, .disableInterrupts,
      .clearEdge config.receivePin, .attachEdge config.receivePin, .enableInterrupts,
      .disableInterrupts], ¬call.IsSend := by
    simp [Call.IsSend]
  have hnone : ∀ call ∈ ([] : List Call), ¬call.IsSend := List.forall_mem_nil _
  obtain ⟨l, hexchange, hsettled, -⟩ := h.exists_exchange_of_answer hrests hbefore hnone hlt
  rw [Answer.kind] at hexchange
  rw [Client.receive, Client.receiveRequest_eq h.swapped_eq, hexchange]
  exact ⟨Client.signalOf_eq h.swapped_eq hwidth hlongest (by omega), hsettled,
    hlistens.captureEnds htick' hpulses hsum⟩

theorem receive_records_of_start :
    (({} : Client).receive (Loopback.opened
      (((fresh {} {} : Device Bench).act .setListener).act .start) 7 [900, 450, 900, 1700] 4 6)).1 =
        .ok ⟨0, [900, 450, 900, 1700]⟩ := by
  have hpulses : ∀ pulse ∈ ([900, 450, 900, 1700] : List UInt32),
      1 ≤ pulse ∧ pulse < ({} : Config).pulseTimeout := by simp
  exact (setting_start.receive_records rfl rfl (by decide) hpulses (by decide)).1

theorem exists_configure_of_admissible (h : Setting config client d connection chunk writeMax)
    (hlistener : d.board.listener = true) (signal : List UInt32) {name ssid password : List UInt8}
    (hcontent : (Request.Content.config name ssid password).Admissible config) :
    ∃ l, client.configure name ssid password (Loopback.opened d connection signal chunk writeMax) =
        (.ok (), l) ∧
      l.device.board.name.filled = name ∧
      l.device.board.beacon.payload.data = Beacon.datagram config.swapped config.port name ∧
      Settled ((pieces config .configured).map (.send connection) ++
          [.configured name ssid password, .close connection, .disableInterrupts]) d l.device := by
  obtain ⟨hvalid, -⟩ := h.shows_ready
  obtain ⟨hrests, hstored, hpayload⟩ := h.rests_of_config hcontent
  rw [if_pos hlistener] at hrests
  have hoff := hrests.offerSignal_eq (by simp) signal
  rw [← hoff] at hrests hstored hpayload
  have hnone : ∀ call ∈ ([] : List Call), ¬call.IsSend := List.forall_mem_nil _
  have htold : ∀ call ∈ [Call.configured name ssid password], ¬call.IsSend := by
    simp [Call.IsSend]
  have hlt : Answer.configured.bodyLength config.pulseWidth < 65536 := Nat.zero_lt_succ _
  obtain ⟨l, hexchange, hsettled, hnameEq, hbeaconEq⟩ :=
    h.exists_exchange_of_answer hrests hnone htold hlt
  obtain ⟨hfits, hssid, hpassword, -⟩ := hcontent
  have hname : name.length ≤ Packet.stringLimit := Nat.le_trans hfits hvalid.nameLengthMax_le
  rw [Answer.kind] at hexchange
  rw [Client.configure, Client.configRequest_eq h.swapped_eq hname hssid hpassword, hexchange]
  refine ⟨l, rfl, ?_, ?_, hsettled⟩
  · exact (congrArg Buffer.filled hnameEq).trans hstored
  · exact (congrArg (fun beacon => beacon.payload.data) hbeaconEq).trans hpayload

theorem exists_configure_of_long (h : Setting config client d connection chunk writeMax)
    (signal : List UInt32) {name ssid password : List UInt8}
    (hname : name.length ≤ Packet.stringLimit) (hssid : ssid.length ≤ Packet.stringLimit)
    (hpassword : password.length ≤ Packet.stringLimit)
    (hlong : config.nameLengthMax < name.length ∨
      config.scratchLength < name.length + ssid.length + password.length) :
    ∃ l, client.configure name ssid password (Loopback.opened d connection signal chunk writeMax) =
        (.error .disconnected, l) ∧
      l.device.board.name = d.board.name ∧ l.device.board.beacon = d.board.beacon ∧
      Settled [.close connection, .disableInterrupts] d l.device := by
  obtain ⟨hvalid, -⟩ := h.shows_ready
  have hrefused := Request.verdict_config_eq_refused hvalid hname hssid hpassword hlong
  obtain ⟨l, hexchange, hsettled, hnameEq, hbeaconEq⟩ :=
    h.exists_exchange_of_refused hrefused signal .configResponse
  rw [Client.configure, Client.configRequest_eq h.swapped_eq hname hssid hpassword, hexchange]
  exact ⟨l, rfl, hnameEq, hbeaconEq, hsettled⟩

/-- The name that a client configures is the one that the device takes, announces and tells its listener of; a
configuration that the device has no room for changes nothing. -/
theorem configure_adopts (h : Setting config client d connection chunk writeMax)
    (hlistener : d.board.listener = true) (signal : List UInt32) (name ssid password : List UInt8) :
    (Packet.stringLimit < name.length ∨ Packet.stringLimit < ssid.length ∨
        Packet.stringLimit < password.length →
      client.configure name ssid password (Loopback.opened d connection signal chunk writeMax) =
        (.error .payloadTooLarge, Loopback.opened d connection signal chunk writeMax)) ∧
    (name.length ≤ Packet.stringLimit → ssid.length ≤ Packet.stringLimit →
        password.length ≤ Packet.stringLimit →
      (name.length ≤ config.nameLengthMax ∧
          name.length + ssid.length + password.length ≤ config.scratchLength →
        (client.configure name ssid password
            (Loopback.opened d connection signal chunk writeMax)).1 = .ok () ∧
          (client.configure name ssid password
            (Loopback.opened d connection signal chunk writeMax)).2.device.board.name.filled = name ∧
          (client.configure name ssid password (Loopback.opened d connection signal chunk
            writeMax)).2.device.board.beacon.payload.data =
              Beacon.datagram config.swapped config.port name ∧
          Settled ((pieces config .configured).map (.send connection) ++
              [.configured name ssid password, .close connection, .disableInterrupts])
            d (client.configure name ssid password
              (Loopback.opened d connection signal chunk writeMax)).2.device) ∧
      (¬(name.length ≤ config.nameLengthMax ∧
          name.length + ssid.length + password.length ≤ config.scratchLength) →
        (client.configure name ssid password
            (Loopback.opened d connection signal chunk writeMax)).1 = .error .disconnected ∧
          (client.configure name ssid password
            (Loopback.opened d connection signal chunk writeMax)).2.device.board.name =
              d.board.name ∧
          (client.configure name ssid password (Loopback.opened d connection signal chunk
            writeMax)).2.device.board.beacon = d.board.beacon ∧
          Settled [.close connection, .disableInterrupts]
            d (client.configure name ssid password
              (Loopback.opened d connection signal chunk writeMax)).2.device)) := by
  constructor
  · intro hlong
    exact Client.configure_eq_error hlong _
  · intro hname hssid hpassword
    constructor
    · rintro ⟨hfits, hroom⟩
      have hcontent : (Request.Content.config name ssid password).Admissible config :=
        ⟨hfits, hssid, hpassword, hroom⟩
      obtain ⟨l, hconfigure, hadopted, hannounced, hsettled⟩ :=
        h.exists_configure_of_admissible hlistener signal hcontent
      rw [hconfigure]
      exact ⟨rfl, hadopted, hannounced, hsettled⟩
    · intro hnot
      have hlong : config.nameLengthMax < name.length ∨
          config.scratchLength < name.length + ssid.length + password.length := by
        omega
      obtain ⟨l, hconfigure, hkept, hbeacon, hsettled⟩ :=
        h.exists_configure_of_long signal hname hssid hpassword hlong
      rw [hconfigure]
      exact ⟨rfl, hkept, hbeacon, hsettled⟩

theorem configure_adopts_of_start :
    (({} : Client).configure [65] [66] [67] (Loopback.opened
        (((fresh {} {} : Device Bench).act .setListener).act .start) 7 [] 4 6)).1 = .ok () ∧
      (({} : Client).configure (List.replicate 33 65) [] [] (Loopback.opened
        (((fresh {} {} : Device Bench).act .setListener).act .start) 7 [] 4 6)).1 =
          .error .disconnected := by
  have hfits := (setting_start.configure_adopts rfl [] [65] [66] [67]).2 (by decide) (by decide)
    (by decide)
  have hlong := (setting_start.configure_adopts rfl [] (List.replicate 33 65) [] []).2 (by decide)
    (by decide) (by decide)
  exact ⟨(hfits.1 (by decide)).1, (hlong.2 (by decide)).1⟩

end Setting

end Bench

end Infrared
