import Infrared.Proofs.Device.Advertisement
import Infrared.Proofs.Device.Timer

namespace Infrared.Device

variable {ω : Type} [Platform ω] {config : Config} {d : Device (Traced ω)} {connection : Connection}

theorem Reachable.running_of_perform (h : Reachable config d) {op : Operation ω} (hop : op ≠ .start)
    (hrunning : (d.perform op).2.running = true) : d.running = true := by
  by_cases hstop : op = .stop
  · subst hstop
    simp only [Device.perform, Device.stop] at hrunning
    split at hrunning
    · assumption
    · assumption
  by_cases htimer : op = .handle .timer
  · subst htimer
    exact hrunning
  · obtain ⟨v, hfollows, -⟩ := h.exists_follows
    obtain ⟨-, hsame⟩ := v.attends_perform hop hstop htimer
    rw [(hfollows.perform op).2.shows.running_eq, hsame] at hrunning
    exact hfollows.shows.running_eq.trans hrunning

theorem Reachable.announces_start (h : Reachable config d) (hstopped : d.running = false) :
    (d.perform .start).2.board.Announces config := by
  have hpacked := Board.data_packBeacon h.fittings_board h.valid
  simp only [Device.perform, Device.start, hstopped, Bool.false_eq_true, if_false]
  split
  · exact hpacked
  · exact hpacked

theorem Reachable.length_name_le (h : Reachable config d) :
    d.board.name.filled.length ≤ config.nameLengthMax := by
  rw [Buffer.length_filled, ← h.capacity_name]
  exact d.board.name.cursor_le_capacity

/-- The payload of a device that runs announces some name that the device had. -/
theorem Reachable.exists_announced (h : Reachable config d) (hrunning : d.running = true) :
    ∃ name : List UInt8, name.length ≤ config.nameLengthMax ∧
      d.board.beacon.payload.data = Beacon.datagram config.swapped config.port name := by
  induction h with
  | new hnew =>
      rw [(Follows.new hnew).shows.running_eq] at hrunning
      simp at hrunning
  | @perform d h op ih =>
      have hcurrent (hannounces : (d.perform op).2.board.Announces config) :
          ∃ name : List UInt8, name.length ≤ config.nameLengthMax ∧
            (d.perform op).2.board.beacon.payload.data =
              Beacon.datagram config.swapped config.port name :=
        ⟨_, (h.perform op).length_name_le, hannounces⟩
      cases hran : d.running with
      | false =>
          have hstart : op = .start := by
            refine Classical.byContradiction fun hop => ?_
            have hbefore := h.running_of_perform hop hrunning
            simp [hran] at hbefore
          subst hstart
          exact hcurrent (h.announces_start hran)
      | true =>
          obtain ⟨name, hlength, hdata⟩ := ih hran
          rcases h.announces_or_keepsName op with hmade | hkept | ⟨chip, rfl, hlong⟩
          · exact hcurrent hmade
          · exact ⟨name, hlength, hkept.payload_eq.trans hdata⟩
          · rw [h.perform_generateName_of_lt hlong]
            exact ⟨name, hlength, hdata⟩

/-- Whether a conversation whose request was taken up has sent in a run what it should have: nothing while the
request is worked on, and then one more of the pieces of its reply than were confirmed. -/
def Replied (config : Config) (connection : Connection) (d : Device (Traced ω))
    (ops : List (Operation ω)) : Prop :=
  (d.run ops).2.session.label = "Process" ∧ d.confirmations connection ops = 0 ∧
      (d.run ops).2.board.world.sendings = d.board.world.sendings ∨
    (d.run ops).2.session.label = "Response" ∧ ∃ answer, d.answerIn? ops = some answer ∧
      d.confirmations connection ops < (pieces config answer).length ∧
      (d.run ops).2.board.world.sendings = d.board.world.sendings ++
        sendingsOf connection ((pieces config answer).take (d.confirmations connection ops + 1))

/-- Whether a device serves its clients: it accepts a connection when it has none, and decodes and answers the
requests that it has room for, however they arrive. -/
structure ServesClients (config : Config) (d : Device (Traced ω)) : Prop where
  accepts : ∀ connection, d.session.isAttached = false →
    d.added (.handle (.connect connection)) = [] ∧
      (d.perform (.handle (.connect connection))).2.session.connection? = some connection
  answers : ∀ connection (content : Request.Content) fragments, d.session.isAttached = false →
    content.Admissible config → content.wire config <+: fragments.flatten →
      (∀ fragment ∈ fragments, fragment.length ≤ config.receiveBufferLength) →
        (d.received connection fragments).Decoded config connection content ∧
          (d.received connection fragments).pending = true ∧
          ∀ ops, (d.received connection fragments).Lasts connection ops →
            Replied config connection (d.received connection fragments) ops

theorem Reachable.replied_run (h : Reachable config d) {request : Request}
    (hd : d.session.conversation = some ⟨connection, .process request⟩) {ops : List (Operation ω)}
    (hlasts : d.Lasts connection ops) : Replied config connection d ops := by
  obtain ⟨v, hfollows, rfl⟩ := h.exists_follows
  have hlast := (hfollows.run ops).2
  obtain ⟨hanswering, hanswer⟩ :=
    hfollows.answering_run (hfollows.answering_of_process hd) hlasts
  rw [Nat.zero_add] at hanswering
  rw [Replied, hlast.shows.session_shows.label_eq, hlast.shows.board_eq, ← hanswer, ← v.config_run ops]
  exact View.sendings_of_answering hlast.keeps.valid hlast.shows.session_shows.sound hanswering

theorem Reachable.servesClients (h : Reachable config d) (hrunning : d.running = true) :
    d.ServesClients config := by
  have hreachable := h
  obtain ⟨v, hfollows, rfl⟩ := h.exists_follows
  constructor
  · intro connection hfree
    have hready := hfollows.session_eq_ready hfree
    have hconnect : (v.perform (.handle (.connect connection))).2 =
        { v with session := .request connection [] } := by
      simp only [View.perform, View.handle, View.connect]
      rw [if_pos ⟨hfollows.shows.running_eq.symm.trans hrunning, hready⟩]
    have hnext := (hfollows.perform (.handle (.connect connection))).2.shows.session_shows
    refine ⟨?_, ?_⟩
    · have hnone : Traced.Adds [] v.board.world
          (v.perform (.handle (.connect connection))).2.board.world := by
        rw [hconnect]
        exact .nil
      have hcalls := hfollows.map_call_added hnone
      exact List.map_eq_nil_iff.mp hcalls
    · rw [hnext.connection?_eq, hconnect]
      rfl
  · intro connection content fragments hfree hcontent hwire hfragments
    have hverdict := (Request.verdict_eq_accepted_iff hfollows.keeps.valid).mpr
      ⟨content, hcontent, hwire, rfl, rfl⟩
    have hreceived := hfollows.received hrunning hfree connection hfragments
    rw [hverdict] at hreceived
    have hconversation := hreceived.shows.session_shows.agrees.1
    exact ⟨decoded_of_accepted hreceived rfl rfl, hreceived.shows.pending_eq,
      fun ops hlasts => (hreachable.received connection fragments).replied_run hconversation hlasts⟩

/-- A device that runs without a name serves its clients. When its timer runs out it broadcasts a datagram and arms the
timer again: the datagram has an empty name if every name that was generated in the run fits, and otherwise it may
have a name from before. -/
theorem unnamed_run (hvalid : config.validate = .ok ()) (world : ω) (ops : List (Operation ω)) :
    let d : Device (Traced ω) := ((fresh config ⟨world, []⟩).run ops).2
    d.running = true → d.board.name.filled = [] →
      d.ServesClients config ∧
      ∃ name : List UInt8, name.length ≤ config.nameLengthMax ∧
        (d.added (.handle .timer)).map (·.call) =
          [.broadcast config.beaconPort (Beacon.datagram config.swapped config.port name),
            .arm config.beaconInterval] ∧
        ((∀ chip, .generateName chip ∈ ops → (Name.ofChip chip).length ≤ config.nameLengthMax) →
          name = []) := by
  intro d hrunning hname
  have hfresh : Reachable config (fresh config ⟨world, []⟩ : Device (Traced ω)) :=
    reachable_fresh hvalid world
  have hd : Reachable config d := hfresh.run ops
  have hcalls (name : List UInt8)
      (hdata : d.board.beacon.payload.data = Beacon.datagram config.swapped config.port name) :
      (d.added (.handle .timer)).map (·.call) =
        [.broadcast config.beaconPort (Beacon.datagram config.swapped config.port name),
          .arm config.beaconInterval] := by
    have hsome : ¬d.board.beacon.payload.data = [] := by
      rw [hdata]
      exact Beacon.datagram_ne_nil _ _ _
    rw [hd.added_timer, if_pos hrunning, if_neg hsome, hdata]
    rfl
  refine ⟨hd.servesClients hrunning, ?_⟩
  obtain ⟨name, hlength, hdata⟩ := hd.exists_announced hrunning
  by_cases hfits : ∀ chip, .generateName chip ∈ ops → (Name.ofChip chip).length ≤ config.nameLengthMax
  · have hadvertises : d.board.Advertises config :=
      hfresh.advertises_run_of_fits (.inl (Buffer.filled_new _)) hfits
    rw [Board.Advertises, hname] at hadvertises
    rcases hadvertises with hempty | hnameless
    · exact absurd (hdata.symm.trans hempty) (Beacon.datagram_ne_nil _ _ _)
    · exact ⟨[], Nat.zero_le _, hcalls [] hnameless, fun _ => rfl⟩
  · exact ⟨name, hlength, hcalls name hdata, fun h => absurd h hfits⟩

/-- A device whose name is taken away while it runs is announced without one. -/
theorem unnamed_run_setName :
    let ops : List (Operation Bench) := [.setName [65], .start, .setName []]
    let d : Device (Traced Bench) := ((fresh {} ⟨{}, []⟩).run ops).2
    ({} : Config).validate = .ok () ∧ d.running = true ∧ d.board.name.filled = [] ∧
      d.ServesClients {} ∧
      (d.added (.handle .timer)).map (·.call) = [.broadcast 8888 [4, 210, 0], .arm 1000] := by
  intro ops d
  have hvalid : ({} : Config).validate = .ok () := rfl
  have hrunning : d.running = true := by decide +kernel
  have hname : d.board.name.filled = [] := by decide +kernel
  obtain ⟨hserves, name, -, hcalls, hempty⟩ := unnamed_run hvalid ({} : Bench) ops hrunning hname
  have hnone : name = [] := hempty (by simp [ops])
  subst hnone
  exact ⟨hvalid, hrunning, hname, hserves, hcalls⟩

/-- A device that never had a name is not silent. -/
theorem not_silent_of_unnamed :
    let d : Device (Traced Bench) := ((fresh {} ⟨{}, []⟩).run [.start]).2
    ({} : Config).validate = .ok () ∧ d.running = true ∧ d.board.name.filled = [] ∧
      Call.broadcast 8888 [4, 210, 0] ∈ (d.added (.handle .timer)).map (·.call) := by
  intro d
  exact ⟨rfl, by decide +kernel, by decide +kernel, by decide +kernel⟩

end Infrared.Device
