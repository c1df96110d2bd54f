import Infrared.Bench
import Infrared.Proofs.Machine.Device

namespace Infrared

open Device (Operation Reachable sendingsOf pieces)

/-- Whether it is not the machine's doing that a conversation is given up: its request is wrong, or the network
takes no more of the reply. -/
def Stage.Excuses : Stage → Fault → Prop
  | request, fault => fault.OfRequest
  | response, fault => fault = .io
  | _, _ => False

theorem Exchange.At.eq_configured {reply : Reply} {e : ConfigExchange} {next : Nat}
    (h : (config e).At reply next) : reply = .configured e.name e.ssid e.password := by
  cases reply with
  | configured name ssid password =>
      obtain ⟨rfl, rfl, rfl, -⟩ := h
      rfl
  | _ => exact h.elim

theorem CheckedSession.Shows.acceptedName?_eq {c : CheckedSession} {s : Session} (h : c.Shows s)
    {e : ConfigExchange} (hexchange : c.exchange = some (.config e))
    (hstage : c.stage = .process ∨ c.stage = .response) : s.acceptedName? = some e.name := by
  have hagrees := h.agrees
  obtain ⟨limits, inbound, outbound, scratch, conversation⟩ := s
  match conversation with
  | none => simp [hagrees.1] at hstage
  | some ⟨_, .request _⟩ => simp [hagrees.1] at hstage
  | some ⟨_, .process request⟩ =>
      obtain ⟨-, ⟨e', hexchange', he⟩, -⟩ := hagrees
      obtain rfl := Option.some.inj (hexchange.symm.trans hexchange')
      cases request with
      | config name ssid password => exact congrArg some he.1.symm
      | _ => exact he.elim
  | some ⟨_, .response reply next awaiting⟩ =>
      obtain ⟨-, ⟨e', hexchange', he⟩, -⟩ := hagrees
      obtain rfl := Option.some.inj (hexchange.symm.trans hexchange')
      obtain ⟨next, hat⟩ := he.exists_at
      rw [hat.eq_configured]
      rfl

theorem CheckedSession.Shows.exists_process {c : CheckedSession} {s : Session} (h : c.Shows s)
    {connection : Connection} (hconnection : c.connection = some connection) (hstage : c.stage = .process) :
    ∃ request, s.conversation = some ⟨connection, .process request⟩ := by
  have hagrees := h.agrees
  rw [h.connection_eq] at hconnection
  obtain ⟨limits, inbound, outbound, scratch, conversation⟩ := s
  match conversation with
  | none => simp [hagrees.1] at hstage
  | some ⟨_, .request _⟩ => simp [hagrees.1] at hstage
  | some ⟨current, .process request⟩ =>
      obtain rfl : current = connection := Option.some.inj hconnection
      exact ⟨request, rfl⟩
  | some ⟨_, .response _ _ _⟩ => simp [hagrees.1] at hstage

theorem Session.stopStage_eq (s : Session) :
    s.stopStage = if s.label = "Request" then .request else .response := by
  obtain ⟨limits, inbound, outbound, scratch, conversation⟩ := s
  match conversation with
  | none => rfl
  | some ⟨_, .request _⟩ => rfl
  | some ⟨_, .process _⟩ => rfl
  | some ⟨_, .response _ _ _⟩ => rfl

namespace CheckedDevice

variable {ω : Type}

/-- Whether the name of a configuration is there, and there is room for it in the slot and in the beacon. -/
def Admits (m : CheckedDevice ω) (e : ConfigExchange) : Prop :=
  ∃ strings name slot beacon,
    m.session.scratch.filled = some strings ∧
    Checked.slice strings e.name.start (e.name.start + e.name.length) = some name ∧
    m.board.name.reset.extend name = some (.ok (), slot) ∧
    m.board.beacon.pack m.board.servicePort name = some (.ok (), beacon)

theorem Shows.admits {m : CheckedDevice ω} {d : Device ω} (h : m.Shows d) {e : ConfigExchange}
    {text : List UInt8} (htext : e.name.read? d.session.scratch = some text) (hadmits : d.board.Admits text) :
    m.Admits e := by
  obtain ⟨read, hread, hslice⟩ := CheckedSession.slice_span ((Buffer.slice?_eq_some_iff _ _ _ _).mp htext).1
  obtain rfl := Option.some.inj (htext.symm.trans hread)
  have hfits : text.length ≤ d.board.name.reset.left := by
    rcases Nat.lt_or_ge d.board.name.reset.left text.length with hlt | hle
    · have hslot := hadmits.slot
      rw [Buffer.extend_of_lt _ hlt] at hslot
      simp at hslot
    · exact hle
  have hslot := Buffer.extend_of_le _ hfits
  obtain ⟨beacon, hpack, -⟩ := h.board.beacon.pack d.board.servicePort text
  have hfilled : (d.board.name.reset.append text).filled = text := by
    rw [Buffer.filled_append _ hfits, Buffer.filled_reset, List.nil_append]
  have hpacked : (d.board.beacon.pack d.board.servicePort text).1 = .ok () := by
    have hbeacon := hadmits.beacon
    rw [Board.rename, Board.storeName, hslot] at hbeacon
    rwa [← hfilled]
  refine ⟨d.session.scratch.filled, text, (d.board.name.reset.append text).cells, beacon, ?_, hslice, ?_, ?_⟩
  · rw [h.session.scratch_eq, Buffer.filled_cells]
  · rw [h.board.name_eq, Buffer.reset_cells, Buffer.extend_cells, hslot]
  · rw [h.board.servicePort_eq, hpack, hpacked]

variable [Platform ω]

/-- What an operation adds to the note of conversations that were given up. -/
theorem Shows.exists_notes {m : CheckedDevice (Traced ω)} {d : Device (Traced ω)} {v : Device.View (Traced ω)}
    (h : m.Shows d) (hd : d.Follows v) (op : Operation ω) :
    ∃ m' notes, m.perform op = some ((d.perform op).1, m') ∧ m'.Shows (d.perform op).2 ∧
      m'.session.stops = m.session.stops ++ notes ∧
      ∀ note ∈ notes, note.1.Excuses note.2 ∧
        (note.1 = .response → ∃ connection data, m.session.connection = some connection ∧
          m'.board.world.sendings = m.board.world.sendings ++ [⟨connection, data, false⟩]) := by
  obtain ⟨m', hperform, hm', hstops⟩ := h.perform (hd.allInRange_accesses op)
  refine ⟨m', _, hperform, hm', hstops, ?_⟩
  intro note hnote
  cases hfault : d.fault? op with
  | none => simp [hfault, Session.givenUp] at hnote
  | some fault =>
      obtain rfl : note = (d.session.stopStage, fault) := by
        simpa [hfault, Session.givenUp] using hnote
      rw [h.session.connection_eq, h.board.world_eq, hm'.board.world_eq]
      rw [Session.stopStage_eq]
      rcases hd.excused hfault with ⟨hrequest, hwrong⟩ | ⟨hresponse, rfl, hrefused⟩
      · rw [if_pos hrequest]
        exact ⟨hwrong, by simp⟩
      · rw [if_neg hresponse]
        exact ⟨rfl, fun _ => hrefused⟩

/-- Any run goes through, and comes to the same as the device's. -/
theorem Shows.run {m : CheckedDevice (Traced ω)} {d : Device (Traced ω)} {v : Device.View (Traced ω)}
    (h : m.Shows d) (hd : d.Follows v) (ops : List (Operation ω)) :
    ∃ m', m.run ops = some ((d.run ops).1, m') ∧ m'.Shows (d.run ops).2 ∧
      ∀ note ∈ m'.session.stops, note ∈ m.session.stops ∨ note.1.Excuses note.2 := by
  induction ops generalizing m d v with
  | nil => exact ⟨m, rfl, h, fun _ => .inl⟩
  | cons op ops ih =>
      obtain ⟨m', notes, hperform, hm', hstops, hnotes⟩ := h.exists_notes hd op
      obtain ⟨m'', hrun, hm'', hlater⟩ := ih hm' (hd.perform op).2
      refine ⟨m'', ?_, hm'', ?_⟩
      · simp only [CheckedDevice.run, hperform, hrun, Option.bind_eq_bind, Option.bind_some]
        rfl
      · intro note hnote
        rcases hlater note hnote with hbefore | hexcused
        · rw [hstops, List.mem_append] at hbefore
          exact hbefore.imp_right fun hnew => (hnotes note hnew).1
        · exact .inr hexcused

/-- Whatever a device with a valid configuration was told, it got through it: no index was out of range, no
counter overflowed, and its conversations were given up for wrong requests and for refused sends only. So it is
with what it is told next. The name of a configuration that it has accepted is there and fits, and the
conversation of a request that it has accepted is answered in full, or is cut off by its client, by the end of the
service or by a send that is refused. -/
theorem no_internal_failure {config : Config} (hvalid : config.validate = .ok ()) (world : ω)
    (ops : List (Operation ω)) :
    let d := ((Device.fresh config ⟨world, []⟩).run ops).2
    ∃ m, (fresh config ⟨world, []⟩).run ops = some (((Device.fresh config ⟨world, []⟩).run ops).1, m) ∧
      m.Shows d ∧
      (∀ note ∈ m.session.stops, note.1.Excuses note.2) ∧
      (∀ op, ∃ outcome m' notes, m.perform op = some (outcome, m') ∧
        m'.session.stops = m.session.stops ++ notes ∧
        ∀ note ∈ notes, note.1.Excuses note.2 ∧
          (note.1 = .response → ∃ connection data, m.session.connection = some connection ∧
            m'.board.world.sendings = m.board.world.sendings ++ [⟨connection, data, false⟩])) ∧
      (∀ e, m.session.exchange = some (.config e) →
        m.session.stage = .process ∨ m.session.stage = .response → m.Admits e) ∧
      ∀ connection, m.session.connection = some connection → m.session.stage = .process →
        ∀ rest, d.Lasts connection rest →
        ∀ op, ((d.run rest).2.perform op).2.session.connection? ≠ some connection →
          (op = .stop ∨ op = .handle (.disconnect connection) ∨
            ∃ data, ((d.run rest).2.perform op).2.board.world.sendings =
              (d.run rest).2.board.world.sendings ++ [⟨connection, data, false⟩]) ∨
          ∃ answer, d.answerIn? rest = some answer ∧
            (pieces config answer).flatten = answer.wire config ∧
            ((d.run rest).2.perform op).2.board.world.sendings =
              d.board.world.sendings ++ sendingsOf connection (pieces config answer) := by
  intro d
  have hfresh : Reachable config (Device.fresh config ⟨world, []⟩ : Device (Traced ω)) :=
    Device.reachable_fresh hvalid world
  have hreachable : Reachable config d := hfresh.run ops
  obtain ⟨u, hbegins, -⟩ := hfresh.exists_follows
  obtain ⟨v, hfollows, rfl⟩ := hreachable.exists_follows
  obtain ⟨m, hrun, hm, hstops⟩ := (shows_fresh v.config ⟨world, []⟩).run hbegins ops
  refine ⟨m, hrun, hm, fun note hnote => ?_, fun op => ?_, fun e hexchange hstage => ?_, ?_⟩
  · -- A new machine has given nothing up.
    exact (hstops note hnote).resolve_left List.not_mem_nil
  · obtain ⟨m', notes, hperform, -, hmore, hnotes⟩ := hm.exists_notes hfollows op
    exact ⟨_, m', notes, hperform, hmore, hnotes⟩
  · obtain ⟨text, htext, hadmits⟩ :=
      hreachable.admits_accepted (hm.session.acceptedName?_eq hexchange hstage)
    exact hm.admits htext hadmits
  · intro connection hconnection hstage rest hlasts op hop
    have hsend := hfollows.keeps.valid.headLength_le_send
    simp only [Packet.headLength] at hsend
    obtain ⟨request, hconversation⟩ := hm.session.exists_process hconnection hstage
    rcases hfollows.finished_or_cut hconversation hlasts hop with hcut | ⟨answer, hanswer, hsendings⟩
    · exact .inl hcut
    · exact .inr ⟨answer, hanswer, Bench.flatten_cut (by omega) _, hsendings⟩

/-- A packet of an unknown type is refused, and a reply is given up when the network refuses it. The configuration
after that is accepted with its name, and answered in full once the one piece of the reply is confirmed. -/
theorem no_internal_failure_configRequest :
    let ops : List (Operation Bench) :=
      [.start, .handle (.connect 6), .handle (.receive 6 [9]),
        .handle (.connect 8), .handle (.receive 8 [4, 0, 3, 0, 0, 0]),
        .surroundings fun b => { b with refusesSend := true }, .runPending,
        .surroundings fun b => { b with refusesSend := false },
        .handle (.connect 7), .handle (.receive 7 [4, 0, 6, 1, 65]), .handle (.receive 7 [1, 66, 1, 67])]
    let d := ((Device.fresh {} ⟨{}, []⟩).run ops).2
    let e : ConfigExchange := { step := .password, length := 1, name := ⟨0, 1⟩, ssid := ⟨1, 1⟩, password := ⟨2, 1⟩ }
    ∃ outcomes m, (fresh {} ⟨{}, []⟩).run ops = some (outcomes, m) ∧ m.Shows d ∧
      m.session.stops = [(.request, .unknownType 9), (.response, .io)] ∧
      (∀ note ∈ m.session.stops, note.1.Excuses note.2) ∧
      m.session.stage = .process ∧ m.session.exchange = some (.config e) ∧ m.Admits e ∧
      ∃ answer, d.answerIn? [.runPending] = some answer ∧
        (pieces {} answer).flatten = answer.wire {} ∧
        ((d.run [.runPending]).2.perform (.handle (.sent 7))).2.board.world.sendings =
          d.board.world.sendings ++ sendingsOf 7 (pieces {} answer) := by
  intro ops d e
  have hvalid : ({} : Config).validate = .ok () := rfl
  obtain ⟨m, hrun, hm, hstops, -, hadmits, hends⟩ := no_internal_failure hvalid ({} : Bench) ops
  have hflags : ((fresh {} ⟨{}, []⟩ : CheckedDevice (Traced Bench)).run ops).map
      (fun ran => (ran.2.session.stops, ran.2.session.stage, ran.2.session.connection,
        ran.2.session.exchange)) =
      some ([(.request, .unknownType 9), (.response, .io)], .process, some 7, some (.config e)) := by
    decide +kernel
  rw [hrun] at hflags
  simp only [Option.map_some, Option.some.injEq, Prod.mk.injEq] at hflags
  obtain ⟨hnoted, hstage, hconnection, hexchange⟩ := hflags
  refine ⟨_, m, hrun, hm, hnoted, hstops, hstage, hexchange, hadmits e hexchange (.inl hstage), ?_⟩
  have hlasts : d.Lasts 7 [.runPending] := by decide +kernel
  have hsame : ((d.run [.runPending]).2.perform (.handle (.sent 7))).2.board.world.sendings =
      (d.run [.runPending]).2.board.world.sendings := by decide +kernel
  rcases hends 7 hconnection hstage [.runPending] hlasts (.handle (.sent 7)) (by decide +kernel) with
    (hstop | hdisconnect | ⟨data, hrefused⟩) | hanswered
  · simp at hstop
  · simp at hdisconnect
  · have hnil := List.self_eq_append_right.mp (hsame.symm.trans hrefused)
    exact absurd hnil (List.cons_ne_nil _ _)
  · exact hanswered

end CheckedDevice

end Infrared
