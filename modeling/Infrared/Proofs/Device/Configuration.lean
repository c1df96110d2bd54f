import Infrared.Proofs.Device.Replies
import Infrared.Proofs.Identity

namespace Infrared

namespace Session.View

/-- The configuration that takes effect when a conversation ends with its reply. -/
def staged? : View → Option (Connection × Announcement)
  | process connection (.config name ssid password) kept
  | response connection (.configured name ssid password) kept _ =>
    some (connection, ⟨name.of kept, ssid.of kept, password.of kept⟩)
  | _ => none

theorem connection?_of_staged? {v : View} {connection : Connection} {a : Announcement}
    (h : v.staged? = some (connection, a)) : v.connection? = some connection := by
  cases v with
  | ready => simp [staged?] at h
  | request current bytes => simp [staged?] at h
  | process current request kept =>
      cases request with
      | config name ssid password =>
          simp only [staged?, Option.some.injEq, Prod.mk.injEq] at h
          rw [connection?, h.1]
      | _ => simp [staged?] at h
  | response current reply kept sent =>
      cases reply with
      | configured name ssid password =>
          simp only [staged?, Option.some.injEq, Prod.mk.injEq] at h
          rw [connection?, h.1]
      | _ => simp [staged?] at h

variable {ω : Type} [Platform ω] {config : Config}

theorem staged?_respond (config : Config) (connection : Connection) (reply : Reply)
    (kept : List UInt8) (sent more : Nat) (b : Board ω) :
    (respond config connection reply kept sent b).2.1 = .ready ∨
      (respond config connection reply kept sent b).2.1.staged? =
        (response connection reply kept more).staged? := by
  simp only [respond]
  split
  · exact .inl rfl
  · split
    · refine .inr ?_
      cases reply with
      | _ => rfl
    · exact .inl rfl

theorem quiet_respond {connection : Connection} {reply : Reply} {kept : List UInt8} {sent : Nat}
    (h : piece config reply kept sent ≠ []) (b : Board (Traced ω)) :
    Board.Quiet b (respond config connection reply kept sent b).2.2 := by
  have hsend := Board.Quiet.send connection (piece config reply kept sent) b
  simp only [respond, if_neg h]
  split
  · rename_i world hanswer
    rw [hanswer] at hsend
    exact hsend
  · rename_i world hanswer
    rw [hanswer] at hsend
    exact hsend.trans (Board.Quiet.dismiss connection _)

theorem respond_of_piece_eq_nil {connection : Connection} {reply : Reply} {kept : List UInt8}
    {sent : Nat} (h : piece config reply kept sent = []) (b : Board ω) :
    respond config connection reply kept sent b =
      (.done, .ready, dismiss connection (apply reply kept b)) := by
  rw [respond, if_pos h]

theorem quiet_run (hvalid : config.Valid) (v : View) (b : Board (Traced ω)) :
    Board.Quiet b (v.run config b).2.2 := by
  have hfirst (connection : Connection) (reply : Reply) (kept : List UInt8) (b : Board (Traced ω)) :
      Board.Quiet b (respond config connection reply kept 0 b).2.2 :=
    quiet_respond (piece_zero_ne_nil hvalid reply kept) b
  cases v with
  | process connection request kept =>
      cases request with
      | send frequency => exact (Board.Quiet.transmit frequency kept b).trans (hfirst _ _ _ _)
      | config name ssid password => exact hfirst _ _ _ _
      | receive report =>
          cases report with
          | some report => exact hfirst _ _ _ _
          | none =>
              simp only [run]
              split
              · exact .refl b
              · exact .armCapture b
  | ready => exact .refl b
  | request connection bytes => exact .refl b
  | response connection reply kept sent => exact .refl b

theorem staged?_run (config : Config) (v : View) (b : Board ω) :
    (v.run config b).2.1 = .ready ∨ (v.run config b).2.1.staged? = v.staged? := by
  cases v with
  | process connection request kept =>
      cases request with
      | send frequency => exact staged?_respond config connection .sent kept 0 0 _
      | config name ssid password =>
          exact staged?_respond config connection (.configured name ssid password) kept 0 0 b
      | receive report =>
          cases report with
          | some report => exact staged?_respond config connection (.captured report.count) kept 0 0 b
          | none => exact .inr rfl
  | ready => exact .inr rfl
  | request connection bytes => exact .inr rfl
  | response connection reply kept sent => exact .inr rfl

theorem quiet_edge (v : View) (b : Board (Traced ω)) : Board.Quiet b (v.edge config b).2.2 := by
  have hcapture := Board.Quiet.capture (Buffer.new config.scratchLength) b
  rcases hanswer : b.capture (Buffer.new config.scratchLength) with ⟨report, board, store⟩
  rw [hanswer] at hcapture
  simp only [edge, hanswer]
  cases report with
  | none => exact hcapture
  | some report =>
      dsimp only
      split
      · exact hcapture
      · exact hcapture

theorem staged?_edge (config : Config) (v : View) (b : Board ω) :
    (v.edge config b).2.1.staged? = v.staged? := by
  simp only [edge]
  split
  · rfl
  · split
    · rfl
    · rfl

end Session.View

namespace Device

/-- Whether an operation is there to change the name or the beacon's payload. -/
def Operation.Renames {ω : Type} : Operation ω → Prop
  | .setName _ | .generateName _ | .start => True
  | _ => False

namespace View

variable {ω : Type} [Platform ω] {v : View (Traced ω)}

/-- Whether an operation confirms the last piece of the reply to a configuration, and puts it into effect. -/
structure Commits (v : View (Traced ω)) (op : Operation ω) (connection : Connection)
    (a : Announcement) : Prop where
  op_eq : op = .handle (.sent connection)
  exists_reply : ∃ name ssid password kept sent,
    v.session = .response connection (.configured name ssid password) kept sent ∧
      Session.View.piece v.config (.configured name ssid password) kept sent = [] ∧
      a = ⟨name.of kept, ssid.of kept, password.of kept⟩ ∧
      (v.perform op).2.board = Session.View.dismiss connection
        (Session.View.apply (.configured name ssid password) kept v.board)

theorem handle_sent_of_response {ω : Type} [Platform ω] {v : View ω} {connection : Connection}
    {reply : Reply} {kept : List UInt8} {sent : Nat} (hv : v.session = .response connection reply kept sent) :
    v.handle (.sent connection) =
      v.after (Session.View.respond v.config connection reply kept sent v.board) := by
  have hcurrent : v.isCurrent connection = true := by
    simp [isCurrent, hv, Session.View.connection?]
  simp only [handle, hcurrent, if_true, hv, Session.View.sent]

theorem commits_of_piece_eq_nil {connection : Connection} {name ssid password : Span}
    {kept : List UInt8} {sent : Nat}
    (hv : v.session = .response connection (.configured name ssid password) kept sent)
    (hpiece : Session.View.piece v.config (.configured name ssid password) kept sent = []) :
    v.Commits (.handle (.sent connection)) connection
      ⟨name.of kept, ssid.of kept, password.of kept⟩ := by
  refine ⟨rfl, name, ssid, password, kept, sent, hv, hpiece, rfl, ?_⟩
  rw [perform, handle_sent_of_response hv, Session.View.respond_of_piece_eq_nil hpiece]
  rfl

theorem Commits.staged?_eq {op : Operation ω} {connection : Connection} {a : Announcement}
    (h : v.Commits op connection a) : v.session.staged? = some (connection, a) := by
  obtain ⟨-, name, ssid, password, kept, sent, hv, -, rfl, -⟩ := h
  rw [hv]
  rfl

theorem quiet_sent (v : View (Traced ω)) (connection : Connection) :
    Board.Quiet v.board (v.handle (.sent connection)).board ∨
      ∃ a, v.Commits (.handle (.sent connection)) connection a := by
  by_cases hcurrent : v.isCurrent connection = true
  · cases hv : v.session with
    | response current reply kept sent =>
        have hsame : current = connection := by
          simpa [isCurrent, hv, Session.View.connection?] using hcurrent
        subst hsame
        by_cases hpiece : Session.View.piece v.config reply kept sent = []
        · cases reply with
          | configured name ssid password => exact .inr ⟨_, commits_of_piece_eq_nil hv hpiece⟩
          | _ =>
              rw [handle_sent_of_response hv, Session.View.respond_of_piece_eq_nil hpiece]
              exact .inl (.dismiss current v.board)
        · rw [handle_sent_of_response hv]
          exact .inl (Session.View.quiet_respond hpiece v.board)
    | _ =>
        rw [handle_sent_of_label_ne (by simp [hv, Session.View.label]) connection]
        exact .inl (.refl v.board)
  · simp only [handle, hcurrent]
    exact .inl (.refl v.board)

/-- What one operation does to the name, the payload and the listener: nothing, unless it is there to change
them or confirms the end of a configuration's reply. -/
theorem quiet_perform (hvalid : v.config.Valid) {op : Operation ω} (hop : ¬op.Renames) :
    Board.Quiet v.board (v.perform op).2.board ∨ ∃ connection a, v.Commits op connection a := by
  cases op with
  | setName name => exact absurd trivial hop
  | generateName chip => exact absurd trivial hop
  | start => exact absurd trivial hop
  | setListener => exact .inl ⟨rfl, rfl, rfl, rfl⟩
  | surroundings f => exact .inl ⟨rfl, rfl, rfl, rfl⟩
  | stop =>
      refine .inl ?_
      have hshut (b : Board (Traced ω)) : Board.Quiet b (shutDown b) := by
        have hadds := (Traced.adds_tell .disarm b.world).trans
          (Traced.adds_tell .shutdown (Platform.tell .disarm b.world))
        exact ⟨rfl, rfl, hadds.announcements_eq_of_silent (by simp [Call.announcement?]), rfl⟩
      simp only [perform, stop]
      split
      · cases v.session.connection? with
        | some connection => exact (Board.Quiet.dismiss connection v.board).trans (hshut _)
        | none => exact hshut v.board
      · exact .refl v.board
  | runPending =>
      refine .inl ?_
      simp only [perform, runPending]
      split
      · exact Session.View.quiet_run hvalid v.session v.board
      · exact .refl v.board
  | handle event =>
      cases event with
      | connect connection =>
          refine .inl ?_
          simp only [perform, handle, connect]
          split
          · exact .refl v.board
          · exact .tell rfl v.board
      | receive connection data =>
          refine .inl ?_
          simp only [perform, handle]
          split
          · cases v.session with
            | request current bytes =>
                simp only [Session.View.receive]
                split
                · exact .dismiss current v.board
                · split
                  · exact .refl v.board
                  · exact .refl v.board
                  · exact .dismiss current v.board
            | _ => exact .refl v.board
          · exact .refl v.board
      | sent connection =>
          rcases v.quiet_sent connection with hquiet | ⟨a, hcommits⟩
          · exact .inl hquiet
          · exact .inr ⟨connection, a, hcommits⟩
      | disconnect connection =>
          refine .inl ?_
          simp only [perform, handle]
          split
          · exact .resetStation v.board
          · exact .refl v.board
      | edge => exact .inl (Session.View.quiet_edge v.session v.board)
      | timer => exact .inl (.tick v.board)

theorem announcements_of_renames {op : Operation ω} (hop : op.Renames) :
    (v.perform op).2.board.world.announcements = v.board.world.announcements ∧
      (v.perform op).2.board.fittings = v.board.fittings := by
  cases op with
  | setName name =>
      exact ⟨congrArg Traced.announcements (v.board.setName_eq name).2, v.board.fittings_setName name⟩
  | generateName chip =>
      exact ⟨congrArg Traced.announcements (v.board.generateName_eq chip).2,
        v.board.fittings_generateName chip⟩
  | start =>
      have hfittings := v.board.fittings_packBeacon
      have hlisten : Traced.Adds [.listen v.config.port] v.board.world
          (Platform.listen v.config.port v.board.packBeacon.2.world).2 := Traced.adds_listen _ _
      simp only [perform, start]
      split
      · exact ⟨rfl, rfl⟩
      · cases hanswer : Platform.listen v.config.port v.board.packBeacon.2.world with
        | mk accepted world =>
            rw [hanswer] at hlisten
            cases accepted with
            | true =>
                have harm := Traced.adds_tell (.arm v.board.packBeacon.2.beacon.interval) world
                exact ⟨(hlisten.trans harm).announcements_eq_of_silent (by simp [Call.announcement?]),
                  hfittings⟩
            | false =>
                exact ⟨hlisten.announcements_eq_of_silent (by simp [Call.announcement?]), hfittings⟩
  | _ => exact absurd hop id

theorem fittings_apply (reply : Reply) (kept : List UInt8) (b : Board (Traced ω)) :
    (Session.View.apply reply kept b).fittings = b.fittings := by
  cases reply with
  | configured name ssid password =>
      have hrename := b.fittings_rename (name.of kept)
      simp only [Session.View.apply, Board.announce]
      split
      · exact hrename
      · exact hrename
  | sent => rfl
  | captured count => rfl

theorem fittings_perform (hvalid : v.config.Valid) (op : Operation ω) :
    (v.perform op).2.board.fittings = v.board.fittings := by
  by_cases hop : op.Renames
  · exact (announcements_of_renames hop).2
  · rcases quiet_perform hvalid hop with hquiet | ⟨connection, a, -, hreply⟩
    · exact hquiet.fittings_eq
    · obtain ⟨name, ssid, password, kept, sent, -, -, -, hboard⟩ := hreply
      rw [hboard, (Board.Quiet.dismiss connection _).fittings_eq, fittings_apply]

/-- What one operation does to a staged configuration: nothing, unless the conversation ends; and one is
staged when its request was read. -/
inductive Staging (v w : View (Traced ω)) : Prop
  | same (h : w.session.staged? = v.session.staged?)
  | ended (h : w.session = .ready)
  | began (connection : Connection) (bytes : List UInt8) (request : Request) (kept : List UInt8)
      (hnone : v.session.staged? = none)
      (hverdict : Request.verdict v.config bytes = .accepted request kept)
      (h : w = v.decided connection bytes (.accepted request kept))

theorem staging_of_session_eq {w : View (Traced ω)} (h : w.session = v.session) : Staging v w :=
  .same (by rw [h])

theorem staging_receive (v : View (Traced ω)) (connection : Connection) (data : List UInt8) :
    Staging v (v.handle (.receive connection data)) := by
  by_cases hcurrent : v.isCurrent connection = true
  · cases hv : v.session with
    | request current bytes =>
        have hsame : current = connection := by
          simpa [isCurrent, hv, Session.View.connection?] using hcurrent
        subst hsame
        have hnone : v.session.staged? = none := by rw [hv]; rfl
        by_cases hlength : data.length ≤ v.config.receiveBufferLength
        · rw [handle_receive_of_request hv hlength]
          cases hverdict : Request.verdict v.config (bytes ++ data) with
          | waiting => exact .same hnone.symm
          | refused => exact .ended rfl
          | accepted request kept => exact .began _ _ _ _ hnone hverdict rfl
        · refine .ended ?_
          simp only [handle, hcurrent, if_true, hv, Session.View.receive]
          rw [if_pos (Nat.lt_of_not_le hlength)]
          rfl
    | _ =>
        rw [handle_receive_of_label_ne (by simp [hv, Session.View.label])]
        exact staging_of_session_eq rfl
  · simp only [handle, hcurrent]
    exact staging_of_session_eq rfl

theorem staging_perform (v : View (Traced ω)) (op : Operation ω) : Staging v (v.perform op).2 := by
  cases op with
  | stop =>
      simp only [perform, stop]
      split
      · exact .ended rfl
      · exact staging_of_session_eq rfl
  | start =>
      refine staging_of_session_eq ?_
      simp only [perform, start]
      split
      · rfl
      · split
        · rfl
        · rfl
  | runPending =>
      simp only [perform, runPending]
      split
      · rcases Session.View.staged?_run v.config v.session v.board with hready | hsame
        · exact .ended hready
        · exact .same hsame
      · exact staging_of_session_eq rfl
  | handle event =>
      cases event with
      | connect connection =>
          simp only [perform, handle, connect]
          split
          · rename_i hboth
            exact .same (by rw [hboth.2]; rfl)
          · exact staging_of_session_eq rfl
      | receive connection data => exact v.staging_receive connection data
      | sent connection =>
          simp only [perform, handle]
          split
          · cases hv : v.session with
            | response current reply kept sent =>
                rcases Session.View.staged?_respond v.config current reply kept sent sent v.board with
                  hready | hsame
                · exact .ended hready
                · exact .same (hsame.trans (by rw [hv]))
            | _ => exact staging_of_session_eq hv.symm
          · exact staging_of_session_eq rfl
      | disconnect connection =>
          simp only [perform, handle]
          split
          · exact .ended rfl
          · exact staging_of_session_eq rfl
      | edge => exact .same (Session.View.staged?_edge v.config v.session v.board)
      | timer => exact staging_of_session_eq rfl
  | _ => exact staging_of_session_eq rfl

end View

end Device

end Infrared
