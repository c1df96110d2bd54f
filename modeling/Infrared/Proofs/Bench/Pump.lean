import Infrared.Bench.Pump
import Infrared.Proofs.Bench.Calls
import Infrared.Proofs.Device.Configuration
import Infrared.Proofs.Device.Fragmentation

namespace Infrared

/-- The board on a platform that was changed. -/
def Board.onBench (f : Bench → Bench) (b : Board Bench) : Board Bench :=
  { b with world := f b.world }

namespace Bench

/-- The platform with a send that is to be confirmed, or with none. -/
def awaiting (unconfirmed : Option Connection) (b : Bench) : Bench :=
  { b with unconfirmed := unconfirmed }

def sendAll (connection : Connection) (pieces : List (List UInt8)) (b : Bench) : Bench :=
  pieces.foldl (fun b piece => (Platform.send connection piece b).2) b

theorem makes_awaiting (unconfirmed : Option Connection) (b : Bench) :
    Makes [] b (b.awaiting unconfirmed) :=
  ⟨(List.append_nil _).symm, rfl, rfl, rfl, rfl, rfl⟩

theorem makes_sendAll {b : Bench} (h : b.refusesSend = false) (connection : Connection)
    (pieces : List (List UInt8)) :
    Makes (pieces.map (.send connection)) b (sendAll connection pieces b) := by
  induction pieces generalizing b with
  | nil => exact .nil
  | cons piece pieces ih =>
      obtain ⟨-, hsend⟩ := Makes.send h connection piece
      exact hsend.trans (ih (hsend.refusesSend_eq.trans h))

theorem awaiting_of_eq {b : Bench} {unconfirmed : Option Connection}
    (h : b.unconfirmed = unconfirmed) : b.awaiting unconfirmed = b := by
  subst h
  rfl

theorem send_awaiting {b : Bench} (h : b.refusesSend = false) (unconfirmed : Option Connection)
    (connection : Connection) (data : List UInt8) :
    Platform.send connection data (b.awaiting unconfirmed) =
      (true, (Platform.send connection data b).2) := by
  change Bench.perform (.send connection data) (b.awaiting unconfirmed) =
    (true, (Bench.perform (.send connection data) b).2)
  have hsame : (b.awaiting unconfirmed).refusesSend = false := h
  simp only [perform, h, hsame]
  rfl

theorem unconfirmed_send {b : Bench} (h : b.refusesSend = false) (connection : Connection)
    (data : List UInt8) : (Platform.send connection data b).2.unconfirmed = some connection := by
  change (Bench.perform (.send connection data) b).2.unconfirmed = some connection
  simp only [perform, h]
  rfl

end Bench

open Device

/-- What is made of a board by a conversation from the remaining pieces of its reply on. -/
def Session.View.conclude (connection : Connection) (reply : Reply) (kept : List UInt8)
    (rest : List (List UInt8)) (b : Board Bench) : Board Bench :=
  (dismiss connection (apply reply kept (b.onBench (Bench.sendAll connection rest)))).onBench
    (Bench.awaiting none)

theorem Session.View.dismiss_awaiting (connection : Connection) (reply : Reply) (kept : List UInt8)
    (b : Board Bench) :
    dismiss connection (apply reply kept (b.onBench (Bench.awaiting none))) =
      (dismiss connection (apply reply kept b)).onBench (Bench.awaiting none) := by
  have hnone (b : Board Bench) : dismiss connection (b.onBench (Bench.awaiting none)) =
      (dismiss connection b).onBench (Bench.awaiting none) := by
    simp only [dismiss, Board.tell, Board.resetStation, Station.reset, Platform.tell, Board.onBench,
      Bench.awaiting, Platform.perform, Bench.perform, Bench.note]
    simp
  cases reply with
  | sent => exact hnone b
  | captured count => exact hnone b
  | configured name ssid password =>
      have happly : apply (.configured name ssid password) kept (b.onBench (Bench.awaiting none)) =
          (apply (.configured name ssid password) kept b).onBench (Bench.awaiting none) := by
        have hrename : ((b.onBench (Bench.awaiting none)).rename (name.of kept)).2 =
            (b.rename (name.of kept)).2.onBench (Bench.awaiting none) := rfl
        simp only [apply, hrename, Board.announce]
        split
        · rename_i h
          have hlistener : (b.rename (name.of kept)).2.listener = true := h
          rw [if_pos hlistener]
          rfl
        · rename_i h
          have hlistener : ¬(b.rename (name.of kept)).2.listener = true := h
          rw [if_neg hlistener]
      rw [happly, hnone]

namespace Device

def View.onBench (f : Bench → Bench) (v : View Bench) : View Bench :=
  { v with board := v.board.onBench f }

theorem Shows.update {d : Device Bench} {v : View Bench} (h : d.Shows v) (f : Bench → Bench) :
    (Bench.update f d).Shows (v.onBench f) := by
  obtain ⟨config, session, board, running, pending⟩ := d
  obtain ⟨hconfig, hboard, hrunning, hpending, hsession⟩ := h
  dsimp only at hboard
  subst hboard
  exact ⟨hconfig, rfl, hrunning, hpending, hsession⟩

end Device

namespace Bench

variable {d e : Device Bench} {v : View Bench} {connection : Connection} {reply : Reply}
  {kept bytes : List UInt8}

theorem pumpOnce_of_pending (h : d.pending = true) : pumpOnce d = some d.runPending.2 := by
  rw [pumpOnce, if_pos h]

theorem pumpOnce_of_unconfirmed (h : d.pending = false)
    (hunconfirmed : d.board.world.unconfirmed = some connection) :
    pumpOnce d = some ((update (awaiting none) d).handle (.sent connection)) := by
  rw [pumpOnce, if_neg (by simp [h]), hunconfirmed]
  rfl

theorem pumpWithin_of_some (h : pumpOnce d = some e) (rounds : Nat) :
    pumpWithin (rounds + 1) d = pumpWithin rounds e := by
  rw [pumpWithin, h]

theorem pumpWithin_of_idle (h : d.pending = false) (hunconfirmed : d.board.world.unconfirmed = none)
    (rounds : Nat) : pumpWithin rounds d = d := by
  have hnone : pumpOnce d = none := by rw [pumpOnce, if_neg (by simp [h]), hunconfirmed]
  cases rounds with
  | zero => rfl
  | succ rounds => rw [pumpWithin, hnone]

theorem pumpWithin_of_quiet (h : d.Shows v) (hvalid : v.config.Valid) (hpending : v.pending = false)
    (hlabel : v.session.label ≠ "Response") (rounds : Nat) :
    (pumpWithin (rounds + 2) d).Shows (v.onBench (awaiting none)) := by
  have hd : d.pending = false := h.pending_eq.trans hpending
  have hworld : d.board.world = v.board.world := by rw [h.board_eq]
  cases hunconfirmed : v.board.world.unconfirmed with
  | none =>
      have hsame : v.onBench (awaiting none) = v := by
        simp only [View.onBench, Board.onBench, awaiting_of_eq hunconfirmed]
      rw [hsame, pumpWithin_of_idle hd (by rw [hworld, hunconfirmed])]
      exact h
  | some connection =>
      have hsent : Event.sent connection ≠ .edge := by simp
      have hvalid' : (v.onBench (awaiting none)).config.Valid := hvalid
      have hnext := (h.update (awaiting none)).handle_of_ne_edge hvalid' hsent
      have hlabel' : (v.onBench (awaiting none)).session.label ≠ "Response" := hlabel
      rw [View.handle_sent_of_label_ne hlabel'] at hnext
      rw [pumpWithin_of_some (pumpOnce_of_unconfirmed hd (by rw [hworld, hunconfirmed])),
        pumpWithin_of_idle (hnext.pending_eq.trans hpending) (by rw [hnext.board_eq]; rfl)]
      exact hnext

/-- Nothing is left to do for a device that waits for a client or for a signal, but to confirm a send of which
it takes no notice. -/
theorem pump_of_quiet (h : d.Shows v) (hvalid : v.config.Valid) (hpending : v.pending = false)
    (hlabel : v.session.label ≠ "Response") : (pump d).Shows (v.onBench (awaiting none)) :=
  pumpWithin_of_quiet h hvalid hpending hlabel _

theorem drop_pieces {config : Config} (hvalid : config.Valid) (reply : Reply) (kept : List UInt8)
    (sent : Nat) :
    (pieces config (reply.answer config.pulseWidth kept)).drop sent =
      if Session.View.piece config reply kept sent = [] then []
      else Session.View.piece config reply kept sent ::
        (pieces config (reply.answer config.pulseWidth kept)).drop (sent + 1) := by
  have hsend := hvalid.headLength_le_send
  simp only [Packet.headLength] at hsend
  have hpos : 0 < config.sendBufferLength := by omega
  have hget := getElem?_cut hpos
    ((reply.answer config.pulseWidth kept).wire config) sent
  split
  · rename_i hnil
    rw [Session.View.piece_eq_nil_iff hvalid, List.drop_eq_nil_iff] at hnil
    rw [if_neg (Nat.not_lt.mpr hnil), List.getElem?_eq_none_iff] at hget
    exact List.drop_eq_nil_of_le hget
  · rename_i hpiece
    rw [if_pos (Session.View.lt_length_of_piece_ne_nil hvalid hpiece),
      List.getElem?_eq_some_iff] at hget
    obtain ⟨hlt, hget⟩ := hget
    rw [pieces, List.drop_eq_getElem_cons hlt, hget]
    rfl

theorem respond_of_accepting {config : Config} {sent : Nat} {b : Board Bench}
    (haccepts : b.world.refusesSend = false)
    (hpiece : Session.View.piece config reply kept sent ≠ []) (unconfirmed : Option Connection) :
    Session.View.respond config connection reply kept sent (b.onBench (awaiting unconfirmed)) =
      (.blocked, .response connection reply kept (sent + 1), b.onBench fun w =>
        (Platform.send connection (Session.View.piece config reply kept sent) w).2) := by
  have hsend := send_awaiting haccepts unconfirmed connection
    (Session.View.piece config reply kept sent)
  have hworld : (b.onBench (awaiting unconfirmed)).world = b.world.awaiting unconfirmed := rfl
  rw [Session.View.respond, if_neg hpiece, hworld, hsend]
  rfl

theorem exists_pumpOnce_of_response {sent : Nat} (h : d.Shows v) (hvalid : v.config.Valid)
    (hv : v.session = .response connection reply kept sent) (hpending : v.pending = false)
    (hunconfirmed : v.board.world.unconfirmed = some connection) :
    ∃ e, pumpOnce d = some e ∧ e.Shows ((v.onBench (awaiting none)).after
      (Session.View.respond v.config connection reply kept sent
        (v.board.onBench (awaiting none)))) := by
  have hsent : Event.sent connection ≠ .edge := by simp
  have hvalid' : (v.onBench (awaiting none)).config.Valid := hvalid
  have hv' : (v.onBench (awaiting none)).session = .response connection reply kept sent := hv
  have hnext := (h.update (awaiting none)).handle_of_ne_edge hvalid' hsent
  rw [View.handle_sent_of_response hv'] at hnext
  have hworld : d.board.world = v.board.world := by rw [h.board_eq]
  exact ⟨_, pumpOnce_of_unconfirmed (h.pending_eq.trans hpending) (by rw [hworld, hunconfirmed]),
    hnext⟩

theorem pumpWithin_of_response {sent : Nat} {rest : List (List UInt8)} {rounds : Nat}
    (h : d.Shows v) (hvalid : v.config.Valid)
    (hv : v.session = .response connection reply kept sent) (hpending : v.pending = false)
    (haccepts : v.board.world.refusesSend = false)
    (hunconfirmed : v.board.world.unconfirmed = some connection)
    (hrest : (pieces v.config (reply.answer v.config.pulseWidth kept)).drop sent = rest)
    (hrounds : rest.length + 1 ≤ rounds) :
    (pumpWithin rounds d).Shows ⟨v.config, .ready,
      Session.View.conclude connection reply kept rest v.board, v.running, false⟩ := by
  obtain ⟨rounds, rfl⟩ : ∃ n, rounds = n + 1 := ⟨rounds - 1, by omega⟩
  induction rest generalizing d v sent rounds with
  | nil =>
      obtain ⟨e, hpump, he⟩ := exists_pumpOnce_of_response h hvalid hv hpending hunconfirmed
      rw [drop_pieces hvalid] at hrest
      have hpiece : Session.View.piece v.config reply kept sent = [] := by
        refine Decidable.byContradiction fun hne => ?_
        rw [if_neg hne] at hrest
        exact List.cons_ne_nil _ _ hrest
      rw [Session.View.respond_of_piece_eq_nil hpiece, Session.View.dismiss_awaiting] at he
      rw [pumpWithin_of_some hpump, pumpWithin_of_idle he.pending_eq (by rw [he.board_eq]; rfl)]
      exact he
  | cons piece rest ih =>
      obtain ⟨e, hpump, he⟩ := exists_pumpOnce_of_response h hvalid hv hpending hunconfirmed
      rw [drop_pieces hvalid] at hrest
      have hpiece : Session.View.piece v.config reply kept sent ≠ [] := by
        intro hnil
        rw [if_pos hnil] at hrest
        exact List.cons_ne_nil _ _ hrest.symm
      rw [if_neg hpiece, List.cons.injEq] at hrest
      obtain ⟨rfl, hrest⟩ := hrest
      rw [respond_of_accepting haccepts hpiece] at he
      have hsend := (Makes.send haccepts connection
        (Session.View.piece v.config reply kept sent)).2
      rw [List.length_cons] at hrounds
      obtain ⟨rounds, rfl⟩ : ∃ n, rounds = n + 1 := ⟨rounds - 1, by omega⟩
      rw [pumpWithin_of_some hpump]
      have hpendingNext : pendingAfter v.pending .blocked = false := hpending
      exact ih he hvalid rfl hpendingNext (hsend.refusesSend_eq.trans haccepts)
        (unconfirmed_send haccepts connection _) hrest rounds (by omega)

theorem length_pieces_le {config : Config} (hvalid : config.Valid)
    (h : Session.View.Supplied config kept reply) :
    (pieces config (reply.answer config.pulseWidth kept)).length ≤ View.replyLimit := by
  have hsend := hvalid.headLength_le_send
  simp only [Packet.headLength] at hsend
  have hwire := View.length_wire_le hvalid h
  rw [pieces, length_cut (by omega)]
  generalize ((reply.answer config.pulseWidth kept).wire config).length = n at hwire
  have hle : n + config.sendBufferLength - 1 < (n + 1) * config.sendBufferLength := by
    have hmul : n ≤ n * config.sendBufferLength := Nat.le_mul_of_pos_right n (by omega)
    rw [Nat.succ_mul]
    omega
  have hlt := (Nat.div_lt_iff_lt_mul (by omega)).mpr hle
  omega

/-- A request that is answered at once is answered to the end. -/
theorem pump_of_respond {b : Board Bench} (h : d.Shows v) (hvalid : v.config.Valid)
    (hpending : v.pending = true) (hrun : v.session.run v.config v.board =
      Session.View.respond v.config connection reply kept 0 b)
    (haccepts : b.world.refusesSend = false)
    (hsupplied : Session.View.Supplied v.config kept reply) :
    (pump d).Shows ⟨v.config, .ready, Session.View.conclude connection reply kept
      (pieces v.config (reply.answer v.config.pulseWidth kept)) b, v.running, false⟩ := by
  have hpiece := Session.View.piece_zero_ne_nil hvalid reply kept
  have hall := drop_pieces hvalid reply kept 0
  rw [if_neg hpiece, List.drop_zero] at hall
  have hlimit := length_pieces_le hvalid hsupplied
  have hsend := (Makes.send haccepts connection (Session.View.piece v.config reply kept 0)).2
  have hfirst := (h.runPending hvalid).2
  have hsame : b.onBench (awaiting b.world.unconfirmed) = b := rfl
  rw [View.runPending, if_pos hpending, hrun, ← hsame, respond_of_accepting haccepts hpiece] at hfirst
  have hlength := congrArg List.length hall
  rw [List.length_cons] at hlength
  have hrounds : ((pieces v.config (reply.answer v.config.pulseWidth kept)).drop (0 + 1)).length + 1 ≤
      2 + Packet.headLength + Packet.lengthLimit := by
    simp only [View.replyLimit] at hlimit
    omega
  have hrest := pumpWithin_of_response hfirst hvalid rfl rfl (hsend.refusesSend_eq.trans haccepts)
    (unconfirmed_send haccepts connection _) rfl hrounds
  rw [hall, pump, pumpRounds,
    pumpWithin_of_some (pumpOnce_of_pending (h.pending_eq.trans hpending))]
  exact hrest

/-- A request for a signal has a capture armed for it, and then waits. -/
theorem pump_of_receive (h : d.Shows v) (hvalid : v.config.Valid) (hpending : v.pending = true)
    (hv : v.session = .process connection (.receive none) kept)
    (harmed : v.board.station.armed = false) :
    (pump d).Shows ⟨v.config, .process connection (.receive none) kept,
      v.board.armCapture.onBench (awaiting none), v.running, false⟩ := by
  have hnext := (h.runPending hvalid).2
  rw [View.runPending, if_pos hpending, hv, Session.View.run, if_neg (by simp [harmed])] at hnext
  have hrounds : 2 + Packet.headLength + Packet.lengthLimit =
      Packet.headLength + Packet.lengthLimit + 2 := by
    rw [Nat.add_assoc, Nat.add_comm]
  rw [pump, pumpRounds,
    pumpWithin_of_some (pumpOnce_of_pending (h.pending_eq.trans hpending)), hrounds]
  exact pumpWithin_of_quiet hnext hvalid rfl (by simp [View.after, Session.View.label]) _

theorem handle_receive_of_ready (h : d.Shows v) (hv : v.session = .ready) (data : List UInt8) :
    d.handle (.receive connection data) = d := by
  have hcurrent : d.isCurrent connection = false := by
    simp [h.isCurrent_eq, View.isCurrent, hv, Session.View.connection?]
  simp only [handle, hcurrent]
  rfl

theorem foldl_receive_of_ready (h : d.Shows v) (hv : v.session = .ready)
    (hpending : v.pending = false) (hunconfirmed : v.board.world.unconfirmed = none)
    (fragments : List (List UInt8)) :
    fragments.foldl (fun d piece => pump (d.handle (.receive connection piece))) d = d := by
  have hpump : pump d = d := pumpWithin_of_idle (h.pending_eq.trans hpending)
    (by rw [h.board_eq, hunconfirmed]) _
  induction fragments with
  | nil => rfl
  | cons fragment fragments ih => rw [List.foldl_cons, handle_receive_of_ready h hv, hpump, ih]

theorem handle_receive_decides (h : d.Shows v) (hvalid : v.config.Valid)
    (hv : v.session = .request connection bytes) {fragment : List UInt8}
    (hlength : fragment.length ≤ v.config.receiveBufferLength) :
    (d.handle (.receive connection fragment)).Shows
      (v.decided connection (bytes ++ fragment) (Request.verdict v.config (bytes ++ fragment))) := by
  have hreceive : Event.receive connection fragment ≠ .edge := by simp
  rw [← View.handle_receive_of_request hv hlength]
  exact h.handle_of_ne_edge hvalid hreceive

theorem pump_of_waiting (h : d.Shows v) (hvalid : v.config.Valid)
    (hv : v.session = .request connection bytes) (hpending : v.pending = false)
    {fragment : List UInt8} (hlength : fragment.length ≤ v.config.receiveBufferLength)
    (hverdict : Request.verdict v.config (bytes ++ fragment) = .waiting) :
    (pump (d.handle (.receive connection fragment))).Shows
      { v.onBench (awaiting none) with session := .request connection (bytes ++ fragment) } := by
  have hnext := handle_receive_decides h hvalid hv hlength
  rw [hverdict] at hnext
  exact pump_of_quiet hnext hvalid hpending (by simp [View.decided, Session.View.label])

/-- A request of which every part but the whole is waited on is read in fragments, and pumped on from there. -/
theorem exists_foldl_receive_of_accepted {fragments : List (List UInt8)} {request : Request}
    (h : d.Shows v) (hvalid : v.config.Valid) (hv : v.session = .request connection bytes)
    (hpending : v.pending = false)
    (hfragments : ∀ fragment ∈ fragments,
      fragment ≠ [] ∧ fragment.length ≤ v.config.receiveBufferLength) (hne : fragments ≠ [])
    (hverdict : Request.verdict v.config (bytes ++ fragments.flatten) = .accepted request kept)
    (hwaiting : ∀ front, front <+: bytes ++ fragments.flatten → front ≠ bytes ++ fragments.flatten →
      Request.verdict v.config front = .waiting) :
    ∃ e unconfirmed,
      fragments.foldl (fun d piece => pump (d.handle (.receive connection piece))) d = pump e ∧
        e.Shows ((v.onBench (awaiting unconfirmed)).decided connection (bytes ++ fragments.flatten)
          (.accepted request kept)) := by
  induction fragments generalizing d v bytes with
  | nil => exact absurd rfl hne
  | cons fragment fragments ih =>
      obtain ⟨hfragment, hlength⟩ := hfragments fragment List.mem_cons_self
      have hrest (other : List UInt8) (hother : other ∈ fragments) :=
        hfragments other (List.mem_cons_of_mem _ hother)
      rw [List.flatten_cons, ← List.append_assoc] at hverdict hwaiting ⊢
      rw [List.foldl_cons]
      cases fragments with
      | nil =>
          rw [List.flatten_nil, List.append_nil] at hverdict ⊢
          have hnext := handle_receive_decides h hvalid hv hlength
          rw [hverdict] at hnext
          exact ⟨_, v.board.world.unconfirmed, rfl, hnext⟩
      | cons second others =>
          have hsecond := (hrest second List.mem_cons_self).1
          have hpartial : bytes ++ fragment ≠ bytes ++ fragment ++ (second :: others).flatten := by
            intro hwhole
            rw [List.self_eq_append_right, List.flatten_cons, List.append_eq_nil_iff] at hwhole
            exact hsecond hwhole.1
          have hwait := hwaiting _ (List.prefix_append _ _) hpartial
          have hnext := pump_of_waiting h hvalid hv hpending hlength hwait
          obtain ⟨e, unconfirmed, hfold, he⟩ := ih hnext hvalid rfl hpending hrest
            (List.cons_ne_nil _ _) hverdict hwaiting
          exact ⟨e, unconfirmed, hfold, he⟩

/-- A request that is refused, be it before all of it arrived, has its connection closed, and the rest of it
is ignored. -/
theorem foldl_receive_of_refused {fragments : List (List UInt8)} (h : d.Shows v)
    (hvalid : v.config.Valid) (hv : v.session = .request connection bytes)
    (hpending : v.pending = false)
    (hfragments : ∀ fragment ∈ fragments, fragment.length ≤ v.config.receiveBufferLength)
    (hwaiting : Request.verdict v.config bytes = .waiting)
    (hverdict : Request.verdict v.config (bytes ++ fragments.flatten) = .refused) :
    (fragments.foldl (fun d piece => pump (d.handle (.receive connection piece))) d).Shows
      ⟨v.config, .ready, (Session.View.dismiss connection v.board).onBench (awaiting none), v.running,
        false⟩ := by
  induction fragments generalizing d v bytes with
  | nil =>
      rw [List.flatten_nil, List.append_nil, hwaiting] at hverdict
      exact absurd hverdict (by simp)
  | cons fragment fragments ih =>
      have hlength := hfragments fragment List.mem_cons_self
      have hrest (other : List UInt8) (hother : other ∈ fragments) :=
        hfragments other (List.mem_cons_of_mem _ hother)
      rw [List.flatten_cons, ← List.append_assoc] at hverdict
      rw [List.foldl_cons]
      cases hfirst : Request.verdict v.config (bytes ++ fragment) with
      | waiting =>
          have hnext := pump_of_waiting h hvalid hv hpending hlength hfirst
          have hlast := ih hnext hvalid rfl hpending hrest hfirst hverdict
          have hboard := Session.View.dismiss_awaiting connection .sent [] v.board
          have hsame : Session.View.dismiss connection (v.board.onBench (awaiting none)) =
              (Session.View.dismiss connection v.board).onBench (awaiting none) := hboard
          rw [show ({ v.onBench (awaiting none) with
              session := .request connection (bytes ++ fragment) } : View Bench).board =
                v.board.onBench (awaiting none) from rfl, hsame] at hlast
          exact hlast
      | accepted request kept =>
          have hne : Request.verdict v.config (bytes ++ fragment) ≠ .waiting := by simp [hfirst]
          rw [Request.verdict_append_of_ne_waiting hne, hfirst] at hverdict
          exact absurd hverdict (by simp)
      | refused =>
          have hnext := handle_receive_decides h hvalid hv hlength
          rw [hfirst] at hnext
          have hpump := pump_of_quiet hnext hvalid rfl (by simp [View.decided, Session.View.label])
          rw [foldl_receive_of_ready hpump rfl rfl rfl]
          exact hpump

end Bench

end Infrared
