import Infrared.Proofs.Device.Beacon
import Infrared.Proofs.Device.Likeness
import Infrared.Proofs.Device.Replies
import Infrared.Proofs.Identity

namespace Infrared

/-- Whether a call does not concern the conversation on a connection. -/
def Call.incidental (connection : Connection) : Call → Bool
  | close other => other ≠ connection
  | broadcast _ _ | arm _ | disableInterrupts => true
  | _ => false

namespace Traced

variable {ω : Type}

/-- The part of a history that concerns the conversation on a connection. -/
def pertinent (connection : Connection) (t : Traced ω) : List Entry :=
  t.history.filter fun entry => !entry.call.incidental connection

theorem filterMap_pertinent {α : Type} {connection : Connection} {f : Entry → Option α}
    (hf : ∀ entry, entry.call.incidental connection = true → f entry = none) (t : Traced ω) :
    (t.pertinent connection).filterMap f = t.history.filterMap f := by
  rw [pertinent, List.filterMap_filter]
  congr 1
  funext entry
  cases hcall : entry.call.incidental connection with
  | true => simp [hf entry hcall]
  | false => rfl

theorem sendings_eq_of_pertinent {connection : Connection} {t u : Traced ω}
    (h : u.pertinent connection = t.pertinent connection) : u.sendings = t.sendings := by
  have hf (entry : Entry) (hcall : entry.call.incidental connection = true) :
      entry.sending? = none := by
    apply Entry.sending?_eq_none
    intro hsend
    cases hentry : entry.call with
    | send other data =>
        rw [hentry] at hcall
        exact absurd hcall Bool.false_ne_true
    | _ => simp [hentry, Call.IsSend] at hsend
  rw [sendings, sendings, ← filterMap_pertinent hf, ← filterMap_pertinent hf, h]

theorem announcements_eq_of_pertinent {connection : Connection} {t u : Traced ω}
    (h : u.pertinent connection = t.pertinent connection) : u.announcements = t.announcements := by
  have hf (entry : Entry) (hcall : entry.call.incidental connection = true) :
      entry.call.announcement? = none := by
    cases hentry : entry.call with
    | configured name ssid password =>
        rw [hentry] at hcall
        exact absurd hcall Bool.false_ne_true
    | _ => rfl
  have hread (t : Traced ω) :
      t.announcements = (t.pertinent connection).filterMap fun entry => entry.call.announcement? := by
    rw [filterMap_pertinent hf, announcements, calls, List.filterMap_map]
    rfl
  rw [hread, hread, h]

variable [Platform ω]

theorem pertinent_tell {connection : Connection} {call : Call}
    (hcall : call.incidental connection = true) (t : Traced ω) :
    (Platform.tell call t).pertinent connection = t.pertinent connection := by
  have hhistory : (Platform.tell call t).history =
      t.history ++ [⟨call, (Platform.perform call t.world).1⟩] := rfl
  rw [pertinent, hhistory, List.filter_append, List.filter_cons_of_neg (by simp [hcall]),
    List.filter_nil, List.append_nil]
  rfl

end Traced

/-- Whether a relation of worlds, in which calls are answered alike, holds of a world and itself, and outlasts
calls in the second world that do not concern a connection. -/
structure Platform.Disregards {ω : Type} [Platform ω] (connection : Connection)
    (alike : ω → ω → Prop) : Prop extends Platform.Likeness alike where
  refl : ∀ w, alike w w
  tell : ∀ {w u}, alike w u → ∀ call : Call, call.incidental connection = true →
    alike w (Platform.tell call u)

/-- Whether two histories were made in worlds that are alike, and differ in nothing that concerns a connection. -/
def Traced.Alike {ω : Type} (connection : Connection) (alike : ω → ω → Prop) (t u : Traced ω) : Prop :=
  alike t.world u.world ∧ u.pertinent connection = t.pertinent connection

namespace Traced

variable {ω : Type} [Platform ω] {connection : Connection} {alike : ω → ω → Prop}

theorem likeness_alike (h : Platform.Likeness alike) :
    Platform.Likeness (Traced.Alike connection alike) := by
  have hhistory (call : Call) (t : Traced ω) : (Platform.perform call t).2.pertinent connection =
      t.pertinent connection ++ [⟨call, (Platform.perform call t.world).1⟩].filter
        fun entry => !entry.call.incidental connection := List.filter_append _ _
  refine ⟨?_, ?_, ?_⟩
  · rintro t u ⟨hworld, -⟩ call
    exact h.answer_eq hworld call
  · rintro t u ⟨hworld, hpertinent⟩ call
    refine ⟨h.perform hworld call, ?_⟩
    rw [hhistory, hhistory, hpertinent, h.answer_eq hworld]
  · rintro t u ⟨hworld, -⟩
    exact h.patience_eq hworld

theorem Alike.tellAll (h : Platform.Disregards connection alike) {t u : Traced ω}
    (htu : t.Alike connection alike u) {calls : List Call}
    (hcalls : ∀ call ∈ calls, call.incidental connection = true) :
    t.Alike connection alike (Platform.tellAll calls u) := by
  induction calls generalizing u with
  | nil => exact htu
  | cons call calls ih =>
      have hcall := hcalls call List.mem_cons_self
      refine ih ⟨h.tell htu.1 call hcall, ?_⟩ fun other hother => hcalls other (List.mem_cons_of_mem _ hother)
      rw [pertinent_tell hcall, htu.2]

end Traced

namespace Bench

/-- Whether two benches differ at most in what no answer depends on. -/
inductive Alike (b : Bench) : Bench → Prop
  | on (interrupts attached : Bool) (lastRead : Option UInt8) (unconfirmed : Option Connection)
      (outbox : List (Connection × List UInt8)) (log : List Entry) :
    Alike b { b with
      interrupts := interrupts, attached := attached, lastRead := lastRead
      unconfirmed := unconfirmed, outbox := outbox, log := log }

theorem likeness_alike : Platform.Likeness Alike := by
  refine ⟨?_, ?_, ?_⟩
  · rintro b _ ⟨-⟩ call
    cases call with
    | send connection data =>
        simp only [Platform.perform, perform]
        split
        · rfl
        · rfl
    | _ => rfl
  · rintro b _ ⟨-⟩ call
    cases call with
    | send connection data =>
        simp only [Platform.perform, perform]
        split
        · exact .on _ _ _ _ _ _
        · exact .on _ _ _ _ _ _
    | _ => exact .on _ _ _ _ _ _
  · rintro b _ ⟨-⟩
    rfl

/-- A bench does not care for calls that concern no conversation. -/
theorem disregards_alike (connection : Connection) : Platform.Disregards connection Alike := by
  refine ⟨likeness_alike, fun b => .on _ _ _ _ _ _, ?_⟩
  rintro b _ ⟨-⟩ call hcall
  cases call with
  | close other => exact .on _ _ _ _ _ _
  | broadcast port data => exact .on _ _ _ _ _ _
  | arm delay => exact .on _ _ _ _ _ _
  | disableInterrupts => exact .on _ _ _ _ _ _
  | _ => exact absurd hcall Bool.false_ne_true

end Bench

namespace Session

variable {ω : Type} [Platform ω] {s : Session}

theorem isAttached_of_connection? {connection : Connection} (h : s.connection? = some connection) :
    s.isAttached = true := by
  obtain ⟨conversation, hconversation, -⟩ := Option.map_eq_some_iff.mp h
  rw [isAttached, hconversation]
  rfl

theorem receive_of_label_ne (h : s.label ≠ "Request") (data : List UInt8) (board : Board ω) :
    s.receive data board = (.blocked, s, board) := by
  obtain ⟨limits, inbound, outbound, scratch, conversation⟩ := s
  rcases conversation with _ | ⟨connection, reading | request | ⟨reply, next, awaiting⟩⟩
  · rfl
  · exact absurd rfl h
  · rfl
  · rfl

theorem sent_of_not_awaiting (h : s.awaitsConfirmation = false) (board : Board ω) :
    s.sent board = (.blocked, s, board) := by
  obtain ⟨limits, inbound, outbound, scratch, conversation⟩ := s
  rcases conversation with _ | ⟨connection, reading | request | ⟨reply, next, _ | _⟩⟩
  · rfl
  · rfl
  · rfl
  · rfl
  · simp [awaitsConfirmation] at h

theorem edge_of_not_armed (s : Session) {board : Board ω} (h : board.station.armed = false) :
    s.edge board = (.blocked, s, board.tell .disableInterrupts) := by
  simp only [edge, Board.capture_of_not_armed h]

end Session

namespace Device

variable {ω : Type} [Platform ω]

/-- The device after calls were made for it. -/
def telling (calls : List Call) (d : Device (Traced ω)) : Device (Traced ω) :=
  { d with board := { d.board with world := Platform.tellAll calls d.board.world } }

/-- What a device that runs calls when its beacon's timer runs out. -/
def beat (d : Device (Traced ω)) : List Call :=
  (if d.board.beacon.payload.data = [] then []
    else [.broadcast d.config.beaconPort d.board.beacon.payload.data]) ++
    [.arm d.config.beaconInterval]

/-- The operations that do not concern the conversation that a device has on a connection, and the calls that
each of them makes. -/
inductive Stray (connection : Connection) (d : Device (Traced ω)) : Operation ω → List Call → Prop
  | connect {other : Connection} (hother : other ≠ connection) :
    Stray connection d (.handle (.connect other)) [.close other]
  | receive {other : Connection} (hother : other ≠ connection) (data : List UInt8) :
    Stray connection d (.handle (.receive other data)) []
  | sent {other : Connection} (hother : other ≠ connection) :
    Stray connection d (.handle (.sent other)) []
  | disconnect {other : Connection} (hother : other ≠ connection) :
    Stray connection d (.handle (.disconnect other)) []
  | timer : Stray connection d (.handle .timer) d.beat
  | edge (hdisarmed : d.board.station.armed = false) :
    Stray connection d (.handle .edge) [.disableInterrupts]
  | late (hlate : d.session.label = "Process" ∨ d.session.label = "Response") (data : List UInt8) :
    Stray connection d (.handle (.receive connection data)) []
  | unawaited (hunawaited : d.session.awaitsConfirmation = false) :
    Stray connection d (.handle (.sent connection)) []
  | idle (hidle : d.pending = false) : Stray connection d .runPending []

/-- Whether a run is another one with stray operations added to it at any points. -/
inductive Padded (connection : Connection) :
    Device (Traced ω) → List (Operation ω) → List (Operation ω) → Prop
  | nil (d : Device (Traced ω)) : Padded connection d [] []
  | keep {d : Device (Traced ω)} {ops more : List (Operation ω)} (op : Operation ω)
      (h : Padded connection (d.perform op).2 ops more) : Padded connection d (op :: ops) (op :: more)
  | stray {d : Device (Traced ω)} {op : Operation ω} {calls : List Call}
      {ops more : List (Operation ω)} (hserved : d.session.connection? = some connection)
      (hstray : Stray connection d op calls) (h : Padded connection (d.perform op).2 ops more) :
    Padded connection d ops (op :: more)

variable {config : Config} {connection : Connection} {d e : Device (Traced ω)} {v u : View (Traced ω)}
  {op : Operation ω} {calls : List Call} {ops more : List (Operation ω)}

omit [Platform ω] in
theorem resume_of_blocked {run : Session → Board (Traced ω) → Session.Progress × Session × Board (Traced ω)}
    {board : Board (Traced ω)} (h : run d.session d.board = (.blocked, d.session, board)) :
    d.resume run = { d with board := board } := by
  obtain ⟨config, session, before, running, pending⟩ := d
  dsimp only at h
  simp only [resume, h, pendingAfter]

omit [Platform ω] in
theorem Stray.incidental (h : Stray connection d op calls) :
    ∀ call ∈ calls, call.incidental connection = true := by
  cases h with
  | connect hother => exact List.forall_mem_singleton.mpr (decide_eq_true hother)
  | timer =>
      intro call hcall
      simp only [beat, List.mem_append, List.mem_singleton] at hcall
      rcases hcall with hcall | rfl
      · split at hcall
        · simp at hcall
        · rw [List.mem_singleton.mp hcall]
          rfl
      · rfl
  | edge hdisarmed => exact List.forall_mem_singleton.mpr rfl
  | _ => simp

omit [Platform ω] in
theorem isCurrent_of_ne {other : Connection} (hserved : d.session.connection? = some connection)
    (hother : other ≠ connection) : d.isCurrent other = false := by
  simp [isCurrent, hserved, Ne.symm hother]

omit [Platform ω] in
theorem Follows.running_of_connection? (h : d.Follows v)
    (hserved : d.session.connection? = some connection) : d.running = true := by
  rw [h.shows.running_eq]
  apply h.keeps.running_of_ne_ready
  intro hready
  rw [h.shows.session_shows.connection?_eq, hready] at hserved
  simp [Session.View.connection?] at hserved

/-- A stray operation makes its calls and does nothing else. -/
theorem Stray.perform_eq (h : Stray connection d op calls) (hreachable : Reachable config d)
    (hserved : d.session.connection? = some connection) : (d.perform op).2 = d.telling calls := by
  obtain ⟨v, hfollows, hconfig⟩ := hreachable.exists_follows
  have hrunning := hfollows.running_of_connection? hserved
  have hcurrent : d.isCurrent connection = true := by simp [isCurrent, hserved]
  cases h with
  | @connect other hother =>
      have hattach : d.session.attach other = (.error .busy, d.session) := by
        rw [Session.attach, if_pos (Session.isAttached_of_connection? hserved)]
      simp only [perform, handle]
      rw [Device.connect, if_pos hrunning, hattach]
      rfl
  | receive hother data =>
      simp only [perform, handle, isCurrent_of_ne hserved hother]
      rfl
  | sent hother =>
      simp only [perform, handle, isCurrent_of_ne hserved hother]
      rfl
  | disconnect hother =>
      simp only [perform, handle, isCurrent_of_ne hserved hother]
      rfl
  | timer =>
      have hserves := hreachable.beacon_serves
      rw [hrunning] at hserves
      have hbeat : d.beat = d.board.beacon.tickCalls := by
        rw [beat, hserves.tickCalls_eq, hfollows.shows.config_eq, hconfig]
      rw [hbeat]
      rfl
  | edge hdisarmed => exact resume_of_blocked (d.session.edge_of_not_armed hdisarmed)
  | late hlate data =>
      have hlabel : d.session.label ≠ "Request" := by
        rcases hlate with hprocess | hresponse
        · rw [hprocess]
          decide
        · rw [hresponse]
          decide
      simp only [perform, handle, hcurrent, if_true]
      exact resume_of_blocked (Session.receive_of_label_ne hlabel data d.board)
  | unawaited hunawaited =>
      simp only [perform, handle, hcurrent, if_true]
      exact resume_of_blocked (Session.sent_of_not_awaiting hunawaited d.board)
  | idle hidle =>
      simp only [perform, runPending, hidle]
      rfl

omit [Platform ω] in
theorem Operation.respects_alike {alike : ω → ω → Prop}
    (h : ∀ f, op = .surroundings f → ∀ w u, alike w u → alike (f w) (f u)) :
    op.Respects (Traced.Alike connection alike) := by
  cases op with
  | surroundings f =>
      rintro t u ⟨hworld, hhistory⟩
      exact ⟨h f rfl _ _ hworld, hhistory⟩
  | _ => trivial

def View.telling (calls : List Call) (v : View (Traced ω)) : View (Traced ω) :=
  { v with board := { v.board with world := Platform.tellAll calls v.board.world } }

/-- A device that did nothing but make calls has the view that made them. -/
theorem Follows.telling (h : e.Follows u) (heq : (e.perform op).2 = e.telling calls) :
    (e.telling calls).Follows (u.telling calls) := by
  have hnext := (h.perform op).2
  rw [heq] at hnext
  have hboard : (e.telling calls).board = (u.telling calls).board := by
    simp only [Device.telling, View.telling, h.shows.board_eq]
  refine ⟨⟨h.shows.config_eq, hboard, h.shows.running_eq, h.shows.pending_eq, h.shows.session_shows⟩,
    h.keeps.valid, ⟨h.keeps.board_keeps.width_eq, ?_⟩, h.keeps.waits, h.keeps.running_of_ne_ready⟩
  rw [← hboard, hnext.shows.board_eq]
  exact hnext.keeps.board_keeps.interrupts_eq

theorem Follows.alike_padded {alike : ω → ω → Prop} (h : Platform.Disregards connection alike)
    (hpadded : Padded connection e ops more) (hreachable : Reachable config e)
    (hd : d.Follows v) (he : e.Follows u) (hvu : v.Alike (Traced.Alike connection alike) u)
    (hops : ∀ f, Operation.surroundings f ∈ ops → ∀ w u, alike w u → alike (f w) (f u)) :
    ∃ v' u', (d.run ops).2.Follows v' ∧ (e.run more).2.Follows u' ∧
      v'.Alike (Traced.Alike connection alike) u' := by
  induction hpadded generalizing d v u with
  | nil e => exact ⟨v, u, hd, he, hvu⟩
  | @keep e ops more op hpadded ih =>
      have hrespects : op.Respects (Traced.Alike connection alike) :=
        Operation.respects_alike fun f hf => hops f (by rw [hf]; exact List.mem_cons_self)
      exact ih (hreachable.perform op) (hd.perform op).2 (he.perform op).2
        (hvu.perform (Traced.likeness_alike h.toLikeness) hrespects).2
        fun f hf => hops f (List.mem_cons_of_mem _ hf)
  | @stray e op calls ops more hserved hstray hpadded ih =>
      have heq := hstray.perform_eq hreachable hserved
      have hnext := he.telling heq
      rw [← heq] at hnext
      refine ih (hreachable.perform op) hd hnext ?_ hops
      obtain ⟨⟨hstation, hworld⟩⟩ := hvu
      exact .on (.on hstation (hworld.tellAll h hstray.incidental))

/-- An operation that does not concern the conversation on a connection makes its calls and leaves everything
else of the device exactly as it was. With any number of such operations in it, at any points, a run comes to
the same, in surroundings that do not care for the calls: the device shows the same of itself, and has done
the same with every call that concerns the conversation. -/
theorem Reachable.stray_harmless (h : Reachable config d) (connection : Connection) :
    (∀ op calls, d.session.connection? = some connection → Stray connection d op calls →
      (d.perform op).2 = d.telling calls) ∧
    ∀ alike : ω → ω → Prop, Platform.Disregards connection alike →
      ∀ ops more, Padded connection d ops more →
        (∀ f, Operation.surroundings f ∈ ops → ∀ w u, alike w u → alike (f w) (f u)) →
        (d.run ops).2.Resembles (d.run more).2 ∧
          (d.run more).2.answer? = (d.run ops).2.answer? ∧
          (d.run more).2.board.world.pertinent connection =
            (d.run ops).2.board.world.pertinent connection ∧
          (d.run more).2.board.world.sendings = (d.run ops).2.board.world.sendings ∧
          (d.run more).2.board.world.announcements = (d.run ops).2.board.world.announcements := by
  refine ⟨fun op calls hserved hstray => hstray.perform_eq h hserved, ?_⟩
  intro alike hdisregards ops more hpadded hops
  obtain ⟨v, hfollows, -⟩ := h.exists_follows
  have hrefl : v.Alike (Traced.Alike connection alike) v :=
    .on (.on (.refl _) ⟨hdisregards.refl _, rfl⟩)
  obtain ⟨v', u', hshort, hlong, halike⟩ :=
    hfollows.alike_padded hdisregards hpadded h hfollows hrefl hops
  have hpertinent := halike.board.world.2
  rw [← hshort.shows.board_eq, ← hlong.shows.board_eq] at hpertinent
  refine ⟨halike.resembles hshort.shows hlong.shows, ?_, hpertinent,
    Traced.sendings_eq_of_pertinent hpertinent, Traced.announcements_eq_of_pertinent hpertinent⟩
  rw [hshort.shows.answer?_eq, hlong.shows.answer?_eq]
  obtain ⟨-⟩ := halike
  rfl

/-- A configuration that arrives and takes effect among events that do not concern it. -/
theorem stray_harmless_configured :
    let d := (((fresh {} ⟨{}, []⟩ : Device (Traced Bench)).perform .setListener).2.perform
      .start).2.received 7 [[4, 0, 6, 1, 65]]
    let ops : List (Operation Bench) :=
      [.handle (.receive 7 [1, 66, 1, 67]), .runPending, .handle (.sent 7)]
    let more : List (Operation Bench) :=
      [.handle (.connect 9), .handle .timer, .handle (.receive 9 [1]), .runPending,
        .handle (.receive 7 [1, 66, 1, 67]), .handle .edge, .handle (.receive 7 [2, 0, 0]),
        .handle (.sent 7), .runPending, .handle (.disconnect 9), .handle (.sent 9), .handle (.sent 7)]
    (d.run more).2.board.world.sendings = (d.run ops).2.board.world.sendings ∧
      (d.run more).2.board.world.announcements = (d.run ops).2.board.world.announcements ∧
      (d.run ops).2.board.world.announcements = [⟨[65], [66], [67]⟩] := by
  intro d ops more
  have hfresh : Reachable {} (fresh {} ⟨{}, []⟩ : Device (Traced Bench)) := reachable_fresh rfl _
  have hreachable : Reachable {} d := ((hfresh.perform .setListener).perform .start).received 7 _
  have hpadded : Padded 7 d ops more := by
    refine .stray (by decide +kernel) (.connect (by decide)) ?_
    refine .stray (by decide +kernel) .timer ?_
    refine .stray (by decide +kernel) (.receive (by decide) [1]) ?_
    refine .stray (by decide +kernel) (.idle (by decide +kernel)) ?_
    refine .keep _ ?_
    refine .stray (by decide +kernel) (.edge (by decide +kernel)) ?_
    refine .stray (by decide +kernel) (.late (by decide +kernel) [2, 0, 0]) ?_
    refine .stray (by decide +kernel) (.unawaited (by decide +kernel)) ?_
    refine .keep _ ?_
    refine .stray (by decide +kernel) (.disconnect (by decide)) ?_
    refine .stray (by decide +kernel) (.sent (by decide)) ?_
    exact .keep _ (.nil _)
  obtain ⟨-, -, -, hsendings, hannouncements⟩ :=
    (hreachable.stray_harmless 7).2 _ (Bench.disregards_alike 7) ops more hpadded (by simp [ops])
  exact ⟨hsendings, hannouncements, by decide +kernel⟩

end Device

end Infrared
