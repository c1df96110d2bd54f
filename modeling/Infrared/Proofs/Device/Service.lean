import Infrared.Proofs.Device.Beacon

namespace Infrared

variable {ω : Type}

/-- Whether a call is for the service that a device offers or for its beacon. -/
def Call.OfService : Call → Prop
  | listen _ | shutdown | broadcast _ _ | arm _ | disarm => True
  | _ => False

/-- Whether a history goes on with calls of which none is for the service. -/
def Traced.Attends (t u : Traced ω) : Prop :=
  ∃ calls, Traced.Adds calls t u ∧ ∀ call ∈ calls, ¬call.OfService

namespace Traced.Attends

variable {t u v : Traced ω}

theorem of_eq (h : u = t) : Attends t u :=
  ⟨[], h ▸ Adds.nil, by simp⟩

theorem of_singleton {call : Call} (hadds : Adds [call] t u) (h : ¬call.OfService) : Attends t u :=
  ⟨[call], hadds, List.forall_mem_singleton.mpr h⟩

theorem trans (h : Attends t u) (h' : Attends u v) : Attends t v := by
  obtain ⟨calls, hadds, hcalls⟩ := h
  obtain ⟨more, hadds', hmore⟩ := h'
  refine ⟨calls ++ more, hadds.trans hadds', ?_⟩
  rw [List.forall_mem_append]
  exact ⟨hcalls, hmore⟩

variable [Platform ω]

theorem tell (t : Traced ω) {call : Call} (h : ¬call.OfService) : Attends t (Platform.tell call t) :=
  of_singleton (Traced.adds_tell call t) h

theorem dismiss (connection : Connection) (b : Board (Traced ω)) :
    Attends b.world (Session.View.dismiss connection b).world :=
  ⟨_, Session.View.adds_dismiss connection b, by
    simp only [List.forall_mem_cons]
    exact ⟨id, id, List.forall_mem_nil _⟩⟩

theorem respond (config : Config) (connection : Connection) (reply : Reply) (kept : List UInt8)
    (sent : Nat) (b : Board (Traced ω)) :
    Attends b.world (Session.View.respond config connection reply kept sent b).2.2.world := by
  have hsend : Attends b.world
      (Platform.send connection (Session.View.piece config reply kept sent) b.world).2 :=
    of_singleton (Traced.adds_send _ _ _) id
  simp only [Session.View.respond]
  split
  · obtain ⟨calls, hadds, hcalls⟩ := Session.View.exists_adds_apply reply kept b
    refine Attends.trans ⟨calls, hadds, fun call hcall => ?_⟩ (dismiss connection _)
    obtain ⟨name, ssid, password, rfl⟩ := hcalls call hcall
    exact id
  · split
    · rename_i world hanswer
      rw [hanswer] at hsend
      exact hsend
    · rename_i world hanswer
      rw [hanswer] at hsend
      exact hsend.trans (dismiss connection _)

theorem run (config : Config) (v : Session.View) (b : Board (Traced ω)) :
    Attends b.world (v.run config b).2.2.world := by
  cases v with
  | process connection request kept =>
      cases request with
      | send frequency =>
          refine Attends.trans ⟨_, b.adds_transmit frequency kept, fun call hcall => ?_⟩ (respond _ _ _ _ _ _)
          rcases Waveform.mem_calls hcall with ⟨_, rfl⟩ | ⟨_, rfl⟩ | ⟨_, rfl⟩
          · exact id
          · exact id
          · exact id
      | config name ssid password => exact respond _ _ _ _ _ _
      | receive report =>
          cases report with
          | some report => exact respond _ _ _ _ _ _
          | none =>
              simp only [Session.View.run]
              split
              · exact of_eq rfl
              · refine ⟨_, b.adds_armCapture, ?_⟩
                simp only [List.forall_mem_cons]
                exact ⟨id, id, id, id, id, List.forall_mem_nil _⟩
  | ready => exact of_eq rfl
  | request connection received => exact of_eq rfl
  | response connection reply kept sent => exact of_eq rfl

theorem receive (config : Config) (data : List UInt8) (v : Session.View) (b : Board (Traced ω)) :
    Attends b.world (v.receive config data b).2.2.world := by
  cases v with
  | request connection received =>
      simp only [Session.View.receive]
      split
      · exact dismiss connection b
      · split
        · exact of_eq rfl
        · exact of_eq rfl
        · exact dismiss connection b
  | ready => exact of_eq rfl
  | process connection request kept => exact of_eq rfl
  | response connection reply kept sent => exact of_eq rfl

theorem sent (config : Config) (v : Session.View) (b : Board (Traced ω)) :
    Attends b.world (v.sent config b).2.2.world := by
  cases v with
  | response connection reply kept sent => exact respond _ _ _ _ _ _
  | ready => exact of_eq rfl
  | request connection received => exact of_eq rfl
  | process connection request kept => exact of_eq rfl

theorem edge (config : Config) (v : Session.View) (b : Board (Traced ω)) :
    Attends b.world (v.edge config b).2.2.world := by
  obtain ⟨count, hadds⟩ := b.exists_adds_capture (Buffer.new config.scratchLength)
  have hcapture : Attends b.world (b.capture (Buffer.new config.scratchLength)).2.1.world := by
    refine ⟨_, hadds, List.forall_mem_cons.mpr ⟨id, fun call hcall => ?_⟩⟩
    obtain ⟨pair, hpair, hmem⟩ := List.mem_flatten.mp hcall
    obtain ⟨-, rfl⟩ := List.mem_replicate.mp hpair
    simp only [List.mem_cons, List.not_mem_nil, or_false] at hmem
    rcases hmem with rfl | rfl
    · exact id
    · exact id
  rcases hanswer : b.capture (Buffer.new config.scratchLength) with ⟨report, board, store⟩
  rw [hanswer] at hcapture
  simp only [Session.View.edge, hanswer]
  cases report with
  | none => exact hcapture
  | some report =>
      dsimp only
      split
      · exact hcapture
      · exact hcapture

end Traced.Attends

namespace Device

variable [Platform ω]

theorem View.attends_handle (v : View (Traced ω)) {event : Event} (hevent : event ≠ .timer) :
    Traced.Attends v.board.world (v.handle event).board.world := by
  cases event with
  | connect connection =>
      simp only [View.handle, View.connect]
      split
      · exact .of_eq rfl
      · exact .tell v.board.world id
  | receive connection data =>
      simp only [View.handle]
      split
      · exact .receive v.config data v.session v.board
      · exact .of_eq rfl
  | sent connection =>
      simp only [View.handle]
      split
      · exact .sent v.config v.session v.board
      · exact .of_eq rfl
  | disconnect connection =>
      simp only [View.handle]
      split
      · exact .tell v.board.world id
      · exact .of_eq rfl
  | edge => exact .edge v.config v.session v.board
  | timer => exact absurd rfl hevent

/-- Nothing but a start, a stop and the timer has to do with the service. -/
theorem View.attends_perform (v : View (Traced ω)) {op : Operation ω} (hstart : op ≠ .start)
    (hstop : op ≠ .stop) (htimer : op ≠ .handle .timer) :
    Traced.Attends v.board.world (v.perform op).2.board.world ∧
      (v.perform op).2.running = v.running := by
  cases op with
  | setListener => exact ⟨.of_eq rfl, rfl⟩
  | surroundings f => exact ⟨⟨[], ⟨[], (List.append_nil _).symm, rfl⟩, by simp⟩, rfl⟩
  | setName name => exact ⟨.of_eq (v.board.setName_eq name).2, rfl⟩
  | generateName chip => exact ⟨.of_eq (v.board.generateName_eq chip).2, rfl⟩
  | start => exact absurd rfl hstart
  | stop => exact absurd rfl hstop
  | runPending =>
      simp only [View.perform, View.runPending]
      split
      · exact ⟨.run v.config v.session v.board, rfl⟩
      · exact ⟨.of_eq rfl, rfl⟩
  | handle event =>
      exact ⟨v.attends_handle fun heq => htimer (congrArg Operation.handle heq), v.running_handle event⟩

end Device

end Infrared
