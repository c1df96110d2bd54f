import Infrared.Proofs.Device.Configuration

namespace Infrared.Device

variable {ω : Type}

/-- Whether a device took a configuration in one operation. -/
structure Adopts (config : Config) (a : Announcement) (d e : Device (Traced ω)) : Prop where
  name_eq : e.board.name.filled = a.name
  payload_eq :
    e.board.beacon.payload.data = Beacon.datagram config.swapped config.port a.name
  announcements_eq : e.board.world.announcements =
    d.board.world.announcements ++ if d.board.listener then [a] else []

/-- Whether an operation did not call the listener, and left the name and the payload as they were unless it
is there to change them. -/
structure Unaltered (op : Operation ω) (d e : Device (Traced ω)) : Prop where
  name_eq : ¬op.Renames → e.board.name.filled = d.board.name.filled
  payload_eq : ¬op.Renames → e.board.beacon.payload.data = d.board.beacon.payload.data
  announcements_eq : e.board.world.announcements = d.board.world.announcements

variable [Platform ω]

/-- Whether an operation after a run confirms the last piece of the reply to a configuration that was decoded
before the run: every piece was sent since, and taken. -/
def Acknowledges (d : Device (Traced ω)) (connection : Connection) (ops : List (Operation ω))
    (op : Operation ω) : Prop :=
  op = .handle (.sent connection) ∧
    (d.run ops).2.board.world.sendings =
      d.board.world.sendings ++ sendingsOf connection (pieces d.config .configured)

variable {config : Config} {d : Device (Traced ω)} {v : View (Traced ω)} {connection : Connection}
  {a : Announcement} {op : Operation ω} {ops : List (Operation ω)}

theorem View.Commits.adopts (h : v.Commits op connection a) (hfollows : d.Follows v)
    (hfittings : v.board.fittings = .of v.config) (hname : a.name.length ≤ v.config.nameLengthMax) :
    Adopts v.config a d (d.perform op).2 := by
  have hboard := (hfollows.perform op).2.shows.board_eq
  obtain ⟨-, name, ssid, password, kept, sent, -, -, rfl, hcommit⟩ := h
  rw [hcommit] at hboard
  obtain ⟨hstored, hpayload⟩ :=
    Board.rename_of_length_le hfittings hfollows.keeps.valid hname
  have hannounce := (v.board.rename (name.of kept)).2.adds_announce (ssid.of kept) (password.of kept)
  have hquiet := Board.Quiet.dismiss connection
    (Session.View.apply (.configured name ssid password) kept v.board)
  have hkept : (Session.View.apply (.configured name ssid password) kept v.board).name.filled =
        name.of kept ∧
      (Session.View.apply (.configured name ssid password) kept v.board).beacon.payload.data =
        Beacon.datagram v.config.swapped v.config.port (name.of kept) := by
    simp only [Session.View.apply, Board.announce]
    split
    · exact ⟨hstored, hpayload⟩
    · exact ⟨hstored, hpayload⟩
  refine ⟨?_, ?_, ?_⟩
  · rw [hboard, hquiet.name_eq]
    exact hkept.1
  · rw [hboard, hquiet.payload_eq]
    exact hkept.2
  · rw [hboard, hquiet.announcements_eq, hfollows.shows.board_eq]
    refine hannounce.announcements_eq.trans ?_
    have hlistener : (v.board.rename (name.of kept)).2.listener = v.board.listener := rfl
    have hworld : (v.board.rename (name.of kept)).2.world = v.board.world := rfl
    rw [hlistener, hworld, hstored]
    split
    · rfl
    · rfl

theorem Follows.unaltered_or_commits (hfollows : d.Follows v) (op : Operation ω) :
    Unaltered op d (d.perform op).2 ∨ ∃ connection a, v.Commits op connection a := by
  have hboard := hfollows.shows.board_eq
  have hnext := (hfollows.perform op).2.shows.board_eq
  by_cases hop : op.Renames
  · obtain ⟨hannouncements, -⟩ := View.announcements_of_renames (v := v) hop
    exact .inl ⟨fun h => absurd hop h, fun h => absurd hop h, by rw [hnext, hboard, hannouncements]⟩
  · rcases View.quiet_perform hfollows.keeps.valid hop with hquiet | hcommits
    · refine .inl ⟨fun _ => ?_, fun _ => ?_, ?_⟩
      · rw [hnext, hboard, hquiet.name_eq]
      · rw [hnext, hboard, hquiet.payload_eq]
      · rw [hnext, hboard, hquiet.announcements_eq]
    · exact .inr hcommits

theorem pieces_ne_nil (hvalid : config.Valid) (answer : Answer) : pieces config answer ≠ [] := by
  have hsend := hvalid.headLength_le_send
  simp only [Packet.headLength] at hsend
  rw [pieces, Bench.cut_of_ne_nil (by omega) (answer.wire_ne_nil config)]
  exact List.cons_ne_nil _ _

/-- A conversation that has sent all of its reply ends with the next confirmation, and only then. -/
theorem View.Answering.commits_iff {before : List Sending} {confirmed : Nat}
    (h : v.Answering connection before confirmed) (hvalid : v.config.Valid)
    (hsound : v.session.Sound v.config) (hstaged : v.session.staged? = some (connection, a)) :
    v.Commits op connection a ↔ op = .handle (.sent connection) ∧
      v.board.world.sendings = before ++ sendingsOf connection (pieces v.config .configured) := by
  have hsend := hvalid.headLength_le_send
  simp only [Packet.headLength] at hsend
  constructor
  · rintro ⟨rfl, name, ssid, password, kept, sent, hv, hpiece, -, -⟩
    refine ⟨rfl, ?_⟩
    simp only [Answering, hv] at h
    rw [hv] at hsound
    rw [h.2.2, (take_pieces_eq hvalid hsound hpiece).1]
    rfl
  · rintro ⟨rfl, hsendings⟩
    have hcount (pieces' : List (List UInt8))
        (heq : before ++ sendingsOf connection pieces' =
          before ++ sendingsOf connection (pieces v.config .configured)) :
        pieces'.length = (pieces v.config .configured).length := by
      have hlength := congrArg List.length heq
      simp only [List.length_append, sendingsOf, List.length_map] at hlength
      omega
    cases hv : v.session with
    | response current reply kept sent =>
        rw [hv] at hstaged
        simp only [Answering, hv] at h
        cases reply with
        | configured name ssid password =>
            simp only [Session.View.staged?, Option.some.injEq, Prod.mk.injEq] at hstaged
            obtain ⟨rfl, rfl⟩ := hstaged
            refine View.commits_of_piece_eq_nil hv ?_
            rw [Session.View.piece_eq_nil_iff hvalid, List.drop_eq_nil_iff]
            refine Decidable.byContradiction fun hlt => ?_
            have hmore : sent < (pieces v.config .configured).length :=
              Bench.lt_length_cut (by omega) (Nat.lt_of_not_le hlt)
            have hsame : ((pieces v.config .configured).take sent).length =
                (pieces v.config .configured).length :=
              hcount _ (h.2.2.symm.trans hsendings)
            rw [List.length_take] at hsame
            omega
        | _ => simp [Session.View.staged?] at hstaged
    | process current request kept =>
        simp only [Answering, hv] at h
        have hsame := hcount [] (by simpa [sendingsOf] using h.2.2.symm.trans hsendings)
        exact absurd (List.length_eq_zero_iff.mp hsame.symm) (pieces_ne_nil hvalid _)
    | ready => simp [Answering, hv] at h
    | request current bytes => simp [Answering, hv] at h

theorem read?_eq_some {span : Span} {store : Buffer} {bytes : List UInt8}
    (h : span.read? store = some bytes) : span.of store.filled = bytes := by
  obtain ⟨-, hbytes⟩ := (store.slice?_eq_some_iff _ _ _).mp h
  exact hbytes.symm

omit [Platform ω] in
theorem Follows.staged?_of_decoded (hfollows : d.Follows v) {name ssid password : List UInt8}
    (h : d.Decoded config connection (.config name ssid password)) :
    v.session.staged? = some (connection, ⟨name, ssid, password⟩) := by
  obtain ⟨nameSpan, ssidSpan, passwordSpan, hconversation, hname, hssid, hpassword⟩ := h
  have hagrees := hfollows.shows.session_shows.agrees
  cases hv : v.session with
  | process current request kept =>
      rw [hv] at hagrees
      obtain ⟨hcurrent, hkept, -⟩ := hagrees
      rw [hconversation] at hcurrent
      simp only [Option.some.injEq, Session.Conversation.mk.injEq,
        Session.Phase.process.injEq] at hcurrent
      obtain ⟨rfl, rfl⟩ := hcurrent
      rw [Session.View.staged?, ← hkept, read?_eq_some hname, read?_eq_some hssid,
        read?_eq_some hpassword]
  | ready =>
      rw [hv] at hagrees
      simp [hagrees.1] at hconversation
  | request current bytes =>
      rw [hv] at hagrees
      obtain ⟨reading, hreading, -⟩ := hagrees
      simp [hreading] at hconversation
  | response current reply kept sent =>
      rw [hv] at hagrees
      obtain ⟨next, hresponse, -⟩ := hagrees
      simp [hresponse] at hconversation

theorem run_append (d : Device (Traced ω)) (ops more : List (Operation ω)) :
    (d.run (ops ++ more)).2 = ((d.run ops).2.run more).2 := by
  induction ops generalizing d with
  | nil => rfl
  | cons op ops ih => exact ih (d.perform op).2

theorem View.run_append (v : View (Traced ω)) (ops more : List (Operation ω)) :
    (v.run (ops ++ more)).2 = ((v.run ops).2.run more).2 := by
  induction ops generalizing v with
  | nil => rfl
  | cons op ops ih => exact ih (v.perform op).2

theorem lasts_concat (h : d.Lasts connection ops)
    (hnext : ((d.run ops).2.perform op).2.session.connection? = some connection) :
    d.Lasts connection (ops ++ [op]) := by
  induction ops generalizing d with
  | nil => exact ⟨h, hnext⟩
  | cons first ops ih => exact ⟨h.1, ih h.2 hnext⟩

/-- A configuration stays staged while its conversation goes on. -/
theorem Follows.staged?_run (hfollows : d.Follows v)
    (hstaged : v.session.staged? = some (connection, a)) (hlasts : d.Lasts connection ops) :
    (v.run ops).2.session.staged? = some (connection, a) := by
  induction ops generalizing d v with
  | nil => exact hstaged
  | cons op ops ih =>
      have hnext := (hfollows.perform op).2
      have hserved := connection?_of_lasts hlasts.2
      rw [hnext.shows.session_shows.connection?_eq] at hserved
      refine ih hnext ?_ hlasts.2
      cases v.staging_perform op with
      | same h => exact h.trans hstaged
      | ended h => simp [h, Session.View.connection?] at hserved
      | began other bytes request kept hnone hverdict h => simp [hstaged] at hnone

theorem View.fittings_run (hvalid : v.config.Valid) (ops : List (Operation ω)) :
    (v.run ops).2.board.fittings = v.board.fittings := by
  induction ops generalizing v with
  | nil => rfl
  | cons op ops ih =>
      have hnext : (v.perform op).2.config.Valid := by rw [v.config_perform op]; exact hvalid
      exact (ih hnext).trans (View.fittings_perform hvalid op)

/-- Whether the conversation of a device goes back to a configuration that was decoded. -/
def Began (config : Config) (connection : Connection) (a : Announcement) (d : Device (Traced ω))
    (v : View (Traced ω)) : Prop :=
  ∃ (origin : Device (Traced ω)) (u : View (Traced ω)) (ops : List (Operation ω)),
    Reachable config origin ∧ origin.Follows u ∧ u.config = config ∧
      origin.Decoded config connection (.config a.name a.ssid a.password) ∧
      origin.Lasts connection ops ∧ (origin.run ops).2 = d ∧ (u.run ops).2 = v

/-- What is known of a device that a run comes to, and of the configuration it has staged. -/
structure Tracks (config : Config) (d : Device (Traced ω)) (v : View (Traced ω)) : Prop where
  follows : d.Follows v
  config_eq : v.config = config
  fittings_eq : v.board.fittings = .of config
  staged : ∀ connection a, v.session.staged? = some (connection, a) →
    a.name.length ≤ config.nameLengthMax ∧ Began config connection a d v

theorem Tracks.began_of_accepted (hreachable : Reachable config d) (hfollows : d.Follows v)
    (hconfig : v.config = config) {u : View (Traced ω)} {current : Connection} {bytes : List UInt8}
    {request : Request} {kept : List UInt8} (hsame : u.config = v.config)
    (hverdict : Request.verdict u.config bytes = .accepted request kept)
    (hv : v = u.decided current bytes (.accepted request kept))
    (hstaged : v.session.staged? = some (connection, a)) :
    a.name.length ≤ config.nameLengthMax ∧ Began config connection a d v := by
  obtain ⟨content, hcontent, -, hrequest, hkept⟩ := Request.exists_of_verdict_eq_accepted hverdict
  rw [hv] at hfollows
  have hdecoded := decoded_of_accepted hfollows hrequest hkept
  rw [← hv] at hfollows
  rw [hsame, hconfig] at hdecoded hcontent
  have hserved := Session.View.connection?_of_staged? hstaged
  have hcurrent : v.session.connection? = some current := by rw [hv]; rfl
  obtain rfl : current = connection := by simpa [hcurrent] using hserved
  cases content with
  | config name ssid password =>
      have h := hfollows.staged?_of_decoded hdecoded
      rw [hstaged, Option.some.injEq, Prod.mk.injEq] at h
      obtain ⟨-, rfl⟩ := h
      rw [← hfollows.shows.session_shows.connection?_eq] at hserved
      exact ⟨hcontent.1, d, v, [], hreachable, hfollows, hconfig, hdecoded, hserved, rfl, rfl⟩
  | _ =>
      rw [← hrequest] at hv
      simp [hv, View.decided, Request.Content.request, Session.View.staged?] at hstaged

theorem Reachable.exists_tracks (h : Reachable config d) : ∃ v, Tracks config d v := by
  induction h with
  | new hnew =>
      refine ⟨_, Follows.new hnew, rfl, Board.fittings_new config _, ?_⟩
      intro connection a hstaged
      simp [Session.View.staged?] at hstaged
  | @perform d hreachable op ih =>
      obtain ⟨v, hfollows, hconfig, hfittings, hstaged⟩ := ih
      have hnext := (hfollows.perform op).2
      have hnextConfig := (v.config_perform op).trans hconfig
      refine ⟨_, hnext, hnextConfig, ?_, ?_⟩
      · rw [View.fittings_perform hfollows.keeps.valid, hfittings]
      · intro connection a hnextStaged
        cases v.staging_perform op with
        | same hsame =>
            -- The conversation is the one that went on, so the run behind it is one operation longer.
            obtain ⟨hname, origin, u, ops, horigin, hu, huconfig, hdecoded, hlasts, rfl, rfl⟩ :=
              hstaged connection a (hsame.symm.trans hnextStaged)
            have hserved := Session.View.connection?_of_staged? hnextStaged
            rw [← hnext.shows.session_shows.connection?_eq] at hserved
            refine ⟨hname, origin, u, ops ++ [op], horigin, hu, huconfig, hdecoded,
              lasts_concat hlasts hserved, ?_, ?_⟩
            · rw [run_append]
              rfl
            · rw [View.run_append]
              rfl
        | ended hready => simp [hready, Session.View.staged?] at hnextStaged
        | began current bytes request kept hnone hverdict hdecided =>
            exact Tracks.began_of_accepted (hreachable.perform op) hnext hnextConfig
              (v.config_perform op).symm hverdict hdecided hnextStaged

/-- A configuration that was decoded takes effect in the operation that confirms the last piece of its whole
reply, and in no other; and no operation of a device, whatever its conversation and however it ends, changes
the name or the payload or calls the listener but such a one, or one that is there to rename the device. -/
theorem Reachable.adopts_iff_acknowledged (h : Reachable config d) :
    (∀ connection name ssid password,
      d.Decoded config connection (.config name ssid password) →
        ∀ ops, d.Lasts connection ops → ∀ op,
          (d.Acknowledges connection ops op →
            Adopts config ⟨name, ssid, password⟩ (d.run ops).2 ((d.run ops).2.perform op).2) ∧
          (¬d.Acknowledges connection ops op →
            Unaltered op (d.run ops).2 ((d.run ops).2.perform op).2)) ∧
    ∀ op, Unaltered op d (d.perform op).2 ∨
      ∃ (origin : Device (Traced ω)) (connection : Connection) (name ssid password : List UInt8)
          (ops : List (Operation ω)),
        Reachable config origin ∧ origin.Decoded config connection (.config name ssid password) ∧
          origin.Lasts connection ops ∧ (origin.run ops).2 = d ∧
          origin.Acknowledges connection ops op ∧
          Adopts config ⟨name, ssid, password⟩ d (d.perform op).2 := by
  obtain ⟨v, hfollows, rfl, hfittings, hstaged⟩ := h.exists_tracks
  constructor
  · intro connection name ssid password hdecoded ops hlasts op
    have hbegun := hfollows.staged?_of_decoded hdecoded
    have hlast := (hfollows.run ops).2
    have hconfig := v.config_run ops
    have hstill := hfollows.staged?_run hbegun hlasts
    obtain ⟨spanName, spanSsid, spanPassword, hconversation, -⟩ := hdecoded
    obtain ⟨hanswering, -⟩ :=
      hfollows.answering_run (hfollows.answering_of_process hconversation) hlasts
    have hacknowledges : d.Acknowledges connection ops op ↔
        (v.run ops).2.Commits op connection ⟨name, ssid, password⟩ := by
      rw [hanswering.commits_iff hlast.keeps.valid hlast.shows.session_shows.sound hstill, hconfig,
        Acknowledges, hlast.shows.board_eq, hfollows.shows.config_eq]
    rw [hacknowledges]
    constructor
    · intro hcommit
      have hadopts := hcommit.adopts hlast
        (by rw [View.fittings_run hfollows.keeps.valid, hconfig, hfittings])
        (by rw [hconfig]; exact (hstaged _ _ hbegun).1)
      rwa [hconfig] at hadopts
    · intro hnot
      rcases hlast.unaltered_or_commits op with hunaltered | ⟨other, a, hcommit⟩
      · exact hunaltered
      · have hsame := hcommit.staged?_eq.symm.trans hstill
        rw [Option.some.injEq, Prod.mk.injEq] at hsame
        obtain ⟨rfl, rfl⟩ := hsame
        exact absurd hcommit hnot
  · intro op
    rcases hfollows.unaltered_or_commits op with hunaltered | ⟨connection, a, hcommit⟩
    · exact .inl hunaltered
    · obtain ⟨hname, origin, u, ops, horigin, hu, huconfig, hdecoded, hlasts, hrun, rfl⟩ :=
        hstaged connection a hcommit.staged?_eq
      refine .inr ⟨origin, connection, a.name, a.ssid, a.password, ops, horigin, hdecoded, hlasts, hrun,
        ?_, hcommit.adopts hfollows hfittings hname⟩
      obtain ⟨spanName, spanSsid, spanPassword, hconversation, -⟩ := hdecoded
      obtain ⟨hanswering, -⟩ := hu.answering_run (hu.answering_of_process hconversation) hlasts
      have hcommits := (hanswering.commits_iff hfollows.keeps.valid
        hfollows.shows.session_shows.sound hcommit.staged?_eq).mp hcommit
      rw [Acknowledges, hrun, hfollows.shows.board_eq, hu.shows.config_eq, huconfig]
      exact hcommits

/-- A listener is told of a configuration once the one piece of its reply was sent and is confirmed, and the
payload is then the port, the length of the name and the name. So it is on a device that takes the most significant
byte first, and on one that takes it last. -/
theorem adopts_of_sent :
    let big := (((fresh {} ⟨{}, []⟩ : Device (Traced Bench)).perform .setListener).2.perform
      .start).2.received 7 [[4, 0, 7, 2, 73], [82, 1, 66, 1, 67]]
    let little := (((fresh { swapped := false } ⟨{}, []⟩ : Device (Traced Bench)).perform
      .setListener).2.perform .start).2.received 7 [[4, 7, 0, 2, 73], [82, 1, 66, 1, 67]]
    let sent := Operation.handle (ω := Bench) (.sent 7)
    (Adopts {} ⟨[73, 82], [66], [67]⟩ (big.run [.runPending]).2
        ((big.run [.runPending]).2.perform sent).2 ∧
      ((big.run [.runPending]).2.perform sent).2.board.beacon.payload.data = [4, 210, 2, 73, 82]) ∧
    (Adopts { swapped := false } ⟨[73, 82], [66], [67]⟩ (little.run [.runPending]).2
        ((little.run [.runPending]).2.perform sent).2 ∧
      ((little.run [.runPending]).2.perform sent).2.board.beacon.payload.data = [210, 4, 2, 73, 82]) := by
  intro big little sent
  have hbig : Reachable {} big :=
    (((reachable_fresh rfl _).perform .setListener).perform .start).received 7 _
  have hlittle : Reachable { swapped := false } little :=
    (((reachable_fresh rfl _).perform .setListener).perform .start).received 7 _
  have hfirst : Adopts {} ⟨[73, 82], [66], [67]⟩ (big.run [.runPending]).2
      ((big.run [.runPending]).2.perform sent).2 := by
    refine (hbig.adopts_iff_acknowledged.1 7 [73, 82] [66] [67] ?_ [.runPending] ?_ sent).1 ⟨rfl, ?_⟩
    · exact ⟨⟨0, 2⟩, ⟨2, 1⟩, ⟨3, 1⟩, by decide +kernel, by decide +kernel, by decide +kernel,
        by decide +kernel⟩
    · refine ⟨by decide +kernel, ?_⟩
      rw [Lasts]
      decide +kernel
    · decide +kernel
  have hsecond : Adopts { swapped := false } ⟨[73, 82], [66], [67]⟩ (little.run [.runPending]).2
      ((little.run [.runPending]).2.perform sent).2 := by
    refine (hlittle.adopts_iff_acknowledged.1 7 [73, 82] [66] [67] ?_ [.runPending] ?_ sent).1 ⟨rfl, ?_⟩
    · exact ⟨⟨0, 2⟩, ⟨2, 1⟩, ⟨3, 1⟩, by decide +kernel, by decide +kernel, by decide +kernel,
        by decide +kernel⟩
    · refine ⟨by decide +kernel, ?_⟩
      rw [Lasts]
      decide +kernel
    · decide +kernel
  exact ⟨⟨hfirst, hfirst.payload_eq⟩, hsecond, hsecond.payload_eq⟩

end Infrared.Device
