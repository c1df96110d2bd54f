import Infrared.Bench.Pump
import Infrared.Proofs.Device.Reception

/-!
A device whose surroundings do, after each fragment that arrives, whatever is left to do: its session is run,
and what the network took is confirmed, each piece once and in order. What it comes to depends on the bytes
that arrived and not on the cuts between them.
-/

namespace Infrared

/-- Takes steps until there is none, at most as many as given. -/
def settleWithin {α : Type} (step : α → Option α) : Nat → α → α
  | 0, x => x
  | rounds + 1, x =>
    match step x with
    | some y => settleWithin step rounds y
    | none => x

theorem settleWithin_of_none {α : Type} {step : α → Option α} {x : α} (h : step x = none)
    (rounds : Nat) : settleWithin step rounds x = x := by
  cases rounds with
  | zero => rfl
  | succ rounds => rw [settleWithin, h]

/-- Steps that make something smaller come to an end. -/
theorem step_settleWithin {α : Type} {step : α → Option α} {inv : α → Prop} (size : α → Nat)
    (hstep : ∀ x y, inv x → step x = some y → inv y ∧ size y < size x) {rounds : Nat} {x : α}
    (hinv : inv x) (hsize : size x ≤ rounds) :
    inv (settleWithin step rounds x) ∧ step (settleWithin step rounds x) = none := by
  induction rounds generalizing x with
  | zero =>
      refine ⟨hinv, ?_⟩
      cases hnext : step x with
      | none => rw [settleWithin, hnext]
      | some y =>
          have hlt := (hstep x y hinv hnext).2
          omega
  | succ rounds ih =>
      cases hnext : step x with
      | none =>
          rw [settleWithin, hnext]
          exact ⟨hinv, hnext⟩
      | some y =>
          obtain ⟨hinv', hlt⟩ := hstep x y hinv hnext
          rw [settleWithin, hnext]
          exact ih hinv' (by omega)

theorem settleWithin_rel {α β : Type} {step : α → Option α} {step' : β → Option β}
    {rel : α → β → Prop}
    (hstep : ∀ x y, rel x y → (step x = none ∧ step' y = none) ∨
      ∃ x' y', step x = some x' ∧ step' y = some y' ∧ rel x' y')
    (rounds : Nat) {x : α} {y : β} (h : rel x y) :
    rel (settleWithin step rounds x) (settleWithin step' rounds y) := by
  induction rounds generalizing x y with
  | zero => exact h
  | succ rounds ih =>
      rcases hstep x y h with ⟨hx, hy⟩ | ⟨x', y', hx, hy, hrel⟩
      · rw [settleWithin, settleWithin, hx, hy]
        exact h
      · rw [settleWithin, settleWithin, hx, hy]
        exact ih hrel

namespace Device

variable {ω : Type} [Platform ω]

/-- One thing that is left to do for a device, if the given number of the pieces that the network took were
confirmed: to run the session, or to confirm the next piece. -/
def settleStep : Nat × Device (Traced ω) → Option (Nat × Device (Traced ω))
  | (confirmed, d) =>
    if d.pending then some (confirmed, d.runPending.2)
    else
      match d.board.world.taken[confirmed]? with
      | some piece => some (confirmed + 1, d.handle (.sent piece.connection))
      | none => none

/-- Has fragments arrive, and does after each of them what is left to do. -/
def deliver (connection : Connection) (fragments : List (List UInt8))
    (x : Nat × Device (Traced ω)) : Nat × Device (Traced ω) :=
  fragments.foldl (fun x fragment =>
    settleWithin settleStep Bench.pumpRounds (x.1, x.2.handle (.receive connection fragment))) x

namespace View

def settleStep : Nat × View (Traced ω) → Option (Nat × View (Traced ω))
  | (confirmed, v) =>
    if v.pending then some (confirmed, v.runPending.2)
    else
      match v.board.world.taken[confirmed]? with
      | some piece => some (confirmed + 1, v.handle (.sent piece.connection))
      | none => none

def deliver (connection : Connection) (fragments : List (List UInt8)) (x : Nat × View (Traced ω)) :
    Nat × View (Traced ω) :=
  fragments.foldl (fun x fragment =>
    settleWithin settleStep Bench.pumpRounds (x.1, x.2.handle (.receive connection fragment))) x

end View

/-- Whether a device with its count of confirmations has a view with the same count. -/
def Keeping (x : Nat × Device (Traced ω)) (y : Nat × View (Traced ω)) : Prop :=
  x.1 = y.1 ∧ x.2.Follows y.2

theorem Keeping.settleStep {x : Nat × Device (Traced ω)} {y : Nat × View (Traced ω)}
    (h : Keeping x y) :
    (Device.settleStep x = none ∧ View.settleStep y = none) ∨
      ∃ x' y', Device.settleStep x = some x' ∧ View.settleStep y = some y' ∧ Keeping x' y' := by
  obtain ⟨confirmed, d⟩ := x
  obtain ⟨confirmed', v⟩ := y
  obtain ⟨hconfirmed, hfollows⟩ := h
  dsimp only at hconfirmed hfollows
  subst hconfirmed
  have hpending := hfollows.shows.pending_eq
  have hboard := hfollows.shows.board_eq
  simp only [Device.settleStep, View.settleStep, hpending, hboard]
  split
  · exact .inr ⟨_, _, rfl, rfl, rfl, (hfollows.perform .runPending).2⟩
  · split
    · rename_i piece _
      exact .inr ⟨_, _, rfl, rfl, rfl, hfollows.handle (.sent piece.connection)⟩
    · exact .inl ⟨rfl, rfl⟩

theorem Keeping.settleStep_eq_none {x : Nat × Device (Traced ω)} {y : Nat × View (Traced ω)}
    (h : Keeping x y) (hy : View.settleStep y = none) : Device.settleStep x = none := by
  rcases h.settleStep with ⟨hx, -⟩ | ⟨x', y', -, hy', -⟩
  · exact hx
  · simp [hy] at hy'

theorem Keeping.deliver {x : Nat × Device (Traced ω)} {y : Nat × View (Traced ω)} (h : Keeping x y)
    (connection : Connection) (fragments : List (List UInt8)) :
    Keeping (Device.deliver connection fragments x) (View.deliver connection fragments y) := by
  induction fragments generalizing x y with
  | nil => exact h
  | cons fragment fragments ih =>
      have hnext : Keeping (x.1, x.2.handle (.receive connection fragment))
          (y.1, y.2.handle (.receive connection fragment)) :=
        ⟨h.1, h.2.handle (.receive connection fragment)⟩
      exact ih (settleWithin_rel (fun _ _ => Keeping.settleStep) Bench.pumpRounds hnext)

end Device

namespace Session.View

variable {ω : Type} [Platform ω]

theorem taken_dismiss (connection : Connection) (board : Board (Traced ω)) :
    (dismiss connection board).world.taken = board.world.taken := by
  apply (adds_dismiss connection board).taken_eq
  simp [Call.IsSend]

theorem taken_respond (config : Config) (connection : Connection) (reply : Reply)
    (kept : List UInt8) (sent : Nat) (board : Board (Traced ω)) :
    ((respond config connection reply kept sent board).2.1 =
        response connection reply kept (sent + 1) ∧
      (respond config connection reply kept sent board).2.2.world.taken =
        board.world.taken ++ [⟨connection, piece config reply kept sent, true⟩]) ∨
    ((respond config connection reply kept sent board).2.1 = ready ∧
      (respond config connection reply kept sent board).2.2.world.taken = board.world.taken) := by
  rcases respond_cases config connection reply kept sent board with
    ⟨-, hview, hsendings⟩ | ⟨hview, hsendings⟩ | ⟨-, hview, calls, hcalls, hadds⟩
  · refine .inl ⟨hview, ?_⟩
    rw [Traced.taken, hsendings, List.filter_append]
    rfl
  · refine .inr ⟨hview, ?_⟩
    rw [Traced.taken, hsendings, List.filter_append]
    exact List.append_nil _
  · exact .inr ⟨hview, hadds.taken_eq (not_isSend_of_mem_configured hcalls)⟩

end Session.View

namespace Device.View

/-- How many bytes of a reply there are at most. -/
def replyLimit : Nat :=
  Packet.headLength + Packet.lengthLimit

theorem length_wire_le {config : Config} (hconfig : config.Valid) {reply : Reply} {kept : List UInt8}
    (h : Session.View.Supplied config kept reply) :
    ((reply.answer config.pulseWidth kept).wire config).length ≤ replyLimit := by
  have hbacked := Session.View.backed_of_supplied hconfig h
  rw [Answer.length_wire, replyLimit]
  apply Nat.add_le_add_left
  cases reply with
  | sent => exact Nat.zero_le _
  | configured name ssid password => exact Nat.zero_le _
  | captured count =>
      simp only [Reply.answer, Answer.bodyLength, PulseWidth.length_decodeMany]
      exact hbacked.2

variable {ω : Type}

/-- How much is left to do for a view: a bound on the pieces of a reply to come. -/
def backlog (v : View ω) : Nat :=
  match v.session with
  | .process _ _ _ => if v.pending then replyLimit + 1 else 0
  | .response _ reply kept sent =>
    ((reply.answer v.config.pulseWidth kept).wire v.config).length -
      (sent - 1) * v.config.sendBufferLength
  | _ => 0

/-- Whether all that the network took was confirmed, but for the last piece of a reply that is being sent. -/
def Matched (confirmed : Nat) (v : View (Traced ω)) : Prop :=
  match v.session with
  | .response connection _ _ _ =>
    ∃ before piece, v.board.world.taken = before ++ [piece] ∧ before.length = confirmed ∧
      piece.connection = connection
  | _ => v.board.world.taken.length = confirmed

/-- Whether a view, with the count of confirmations, is past its request and goes with a device. -/
structure Settling (x : Nat × View (Traced ω)) : Prop where
  exists_follows : ∃ d : Device (Traced ω), d.Follows x.2
  label_ne : x.2.session.label ≠ "Request"
  matched : x.2.Matched x.1

theorem getElem?_taken_of_ne_response {confirmed : Nat} {v : View (Traced ω)}
    (h : v.Matched confirmed) (hlabel : v.session.label ≠ "Response") :
    v.board.world.taken[confirmed]? = none := by
  unfold Matched at h
  cases hv : v.session with
  | response connection reply kept sent => exact absurd (by rw [hv]; rfl) hlabel
  | _ =>
      rw [hv] at h
      exact List.getElem?_eq_none (Nat.le_of_eq h)

theorem backlog_le (x : Nat × View (Traced ω)) (h : Settling x) :
    x.2.backlog ≤ Bench.pumpRounds := by
  obtain ⟨⟨d, hfollows⟩, -, -⟩ := h
  have hsound := hfollows.shows.session_shows.sound
  have hlimit : replyLimit + 1 ≤ Bench.pumpRounds := by decide
  unfold backlog
  cases hv : x.2.session with
  | process connection request kept =>
      dsimp only
      split
      · exact hlimit
      · exact Nat.zero_le _
  | response connection reply kept sent =>
      rw [hv] at hsound
      have hlength := length_wire_le hfollows.keeps.valid hsound.1
      dsimp only
      omega
  | ready => exact Nat.zero_le _
  | request connection bytes => exact Nat.zero_le _

variable [Platform ω] {v : View (Traced ω)} {confirmed : Nat}

theorem backlog_le_of_respond {connection : Connection} {reply : Reply} {kept : List UInt8}
    {sent : Nat} {board : Board (Traced ω)} (htaken : board.world.taken.length = confirmed)
    (hsession : v.session =
      (Session.View.respond v.config connection reply kept sent board).2.1)
    (hboard : v.board = (Session.View.respond v.config connection reply kept sent board).2.2) :
    v.session.label ≠ "Request" ∧ v.Matched confirmed ∧
      v.backlog ≤ ((reply.answer v.config.pulseWidth kept).wire v.config).length -
        sent * v.config.sendBufferLength := by
  rcases Session.View.taken_respond v.config connection reply kept sent board with
    ⟨hview, hworld⟩ | ⟨hview, hworld⟩
  · rw [hview] at hsession
    refine ⟨by simp [hsession, Session.View.label], ?_, ?_⟩
    · simp only [Matched, hsession, hboard]
      exact ⟨_, _, hworld, htaken, rfl⟩
    · simp only [backlog, hsession, Nat.add_sub_cancel]
      exact Nat.le_refl _
  · rw [hview] at hsession
    refine ⟨by simp [hsession, Session.View.label], ?_, ?_⟩
    · simp only [Matched, hsession, hboard]
      rw [hworld, htaken]
    · simp only [backlog, hsession]
      exact Nat.zero_le _

theorem taken_transmit (board : Board (Traced ω)) (frequency : UInt32) (pulses : List UInt8) :
    (board.transmit frequency pulses).world.taken = board.world.taken :=
  (board.adds_transmit frequency pulses).taken_eq fun _ => Waveform.not_isSend_of_mem_calls

theorem taken_armCapture (board : Board (Traced ω)) :
    board.armCapture.world.taken = board.world.taken := by
  apply board.adds_armCapture.taken_eq
  simp [Call.IsSend]

/-- A request that was dealt with leaves at most its reply. -/
theorem settling_runPending_of_respond {d : Device (Traced ω)} (h : d.Follows v)
    (hpending : v.pending = true) {connection : Connection} {request : Request} {kept : List UInt8}
    (hv : v.session = .process connection request kept) (reply : Reply)
    (hsupplied : Session.View.Supplied v.config kept reply) (board : Board (Traced ω))
    (hboard : board.world.taken.length = confirmed)
    (hrespond : v.session.run v.config v.board =
      Session.View.respond v.config connection reply kept 0 board) :
    Settling (confirmed, v.runPending.2) ∧ v.runPending.2.backlog < v.backlog := by
  have hnext : (d.perform .runPending).2.Follows v.runPending.2 := (h.perform .runPending).2
  have hrun : v.runPending.2 =
      View.after { v with pending := false } (v.session.run v.config v.board) := by
    rw [View.runPending, if_pos hpending]
  have hbacklog : v.backlog = replyLimit + 1 := by simp [backlog, hv, hpending]
  have hconfig : v.runPending.2.config = v.config := v.config_perform .runPending
  have hlength := length_wire_le h.keeps.valid hsupplied
  obtain ⟨hlabel, hmatched, hle⟩ := backlog_le_of_respond (v := v.runPending.2) hboard
    (by rw [hrun, hrespond]; rfl) (by rw [hrun, hrespond]; rfl)
  rw [hconfig] at hle
  exact ⟨⟨⟨_, hnext⟩, hlabel, hmatched⟩, by omega⟩

theorem settling_runPending (h : Settling (confirmed, v)) (hpending : v.pending = true) :
    Settling (confirmed, v.runPending.2) ∧ v.runPending.2.backlog < v.backlog := by
  obtain ⟨⟨d, hfollows⟩, -, hmatched⟩ := h
  have hwaits := hfollows.keeps.waits
  have hsound := hfollows.shows.session_shows.sound
  dsimp only at hfollows hmatched hwaits hsound
  rw [hpending] at hwaits
  obtain ⟨harmed, connection, request, kept, hv⟩ := hwaits.eq_process_of_pending
  have htaken : v.board.world.taken.length = confirmed := by simpa [Matched, hv] using hmatched
  rw [hv] at hsound
  cases request with
  | send frequency =>
      refine settling_runPending_of_respond hfollows hpending hv .sent trivial
        (v.board.transmit frequency kept) ?_ ?_
      · rw [taken_transmit, htaken]
      · rw [hv]
        rfl
  | config name ssid password =>
      refine settling_runPending_of_respond hfollows hpending hv (.configured name ssid password)
        hsound v.board htaken ?_
      rw [hv]
      rfl
  | receive report =>
      cases report with
      | some report =>
          refine settling_runPending_of_respond hfollows hpending hv (.captured report.count)
            hsound v.board htaken ?_
          rw [hv]
          rfl
      | none =>
          have hafter : v.runPending.2 = { v with pending := false, board := v.board.armCapture } := by
            have hoff : ¬v.board.station.armed = true := by simp [harmed]
            rw [View.runPending, if_pos hpending, hv]
            simp only [View.after, Session.View.run, if_neg hoff]
            rfl
          have hnext : (d.perform .runPending).2.Follows v.runPending.2 :=
            (hfollows.perform .runPending).2
          rw [hafter] at hnext ⊢
          refine ⟨⟨⟨_, hnext⟩, by simp [hv, Session.View.label], ?_⟩, ?_⟩
          · simp only [Matched, hv]
            rw [taken_armCapture, htaken]
          · simp [backlog, hv, hpending]

theorem settling_sent (h : Settling (confirmed, v)) {piece : Sending}
    (hpiece : v.board.world.taken[confirmed]? = some piece) :
    Settling (confirmed + 1, v.handle (.sent piece.connection)) ∧
      (v.handle (.sent piece.connection)).backlog < v.backlog := by
  obtain ⟨⟨d, hfollows⟩, -, hmatched⟩ := h
  have hsound := hfollows.shows.session_shows.sound
  have hvalid := hfollows.keeps.valid
  dsimp only at hfollows hmatched hsound hvalid
  have hlabel : v.session.label = "Response" := by
    refine Decidable.byContradiction fun hne => ?_
    rw [getElem?_taken_of_ne_response hmatched hne] at hpiece
    simp at hpiece
  cases hv : v.session with
  | response connection reply kept sent =>
      simp only [Matched, hv] at hmatched
      obtain ⟨before, last, htaken, hlength, hconnection⟩ := hmatched
      rw [htaken, ← hlength, List.getElem?_concat_length, Option.some.injEq] at hpiece
      subst hpiece
      have hnext := hfollows.handle (.sent last.connection)
      have hhandle : v.handle (.sent last.connection) =
          v.after (Session.View.respond v.config connection reply kept sent v.board) := by
        have hcurrent : v.isCurrent last.connection = true := by
          simp [isCurrent, hv, Session.View.connection?, hconnection]
        rw [View.handle, if_pos hcurrent, hv, Session.View.sent]
      rw [hv] at hsound
      obtain ⟨-, hpos, hrest⟩ := hsound
      have hsend := hvalid.headLength_le_send
      simp only [Packet.headLength] at hsend
      have hcount : v.board.world.taken.length = confirmed + 1 := by
        rw [htaken, List.length_append, hlength]
        rfl
      rw [hhandle] at hnext ⊢
      obtain ⟨hlabel', hmatched', hle⟩ := backlog_le_of_respond
        (v := v.after (Session.View.respond v.config connection reply kept sent v.board)) hcount rfl rfl
      refine ⟨⟨⟨_, hnext⟩, hlabel', hmatched'⟩, ?_⟩
      have hbacklog : v.backlog = ((reply.answer v.config.pulseWidth kept).wire v.config).length -
          (sent - 1) * v.config.sendBufferLength := by simp [backlog, hv]
      have hstep : sent * v.config.sendBufferLength =
          (sent - 1) * v.config.sendBufferLength + v.config.sendBufferLength := by
        rw [← Nat.succ_mul, Nat.succ_eq_add_one, Nat.sub_add_cancel hpos]
      rw [config_after] at hle
      omega
  | _ => simp [hv, Session.View.label] at hlabel

theorem settling_settleStep (x y : Nat × View (Traced ω)) (h : Settling x)
    (hstep : settleStep x = some y) : Settling y ∧ y.2.backlog < x.2.backlog := by
  obtain ⟨confirmed, v⟩ := x
  simp only [settleStep] at hstep
  split at hstep
  · rename_i hpending
    simp only [Option.some.injEq] at hstep
    subst hstep
    exact settling_runPending h hpending
  · split at hstep
    · rename_i piece hpiece
      simp only [Option.some.injEq] at hstep
      subst hstep
      exact settling_sent h hpiece
    · simp at hstep

theorem settleStep_settleWithin {x : Nat × View (Traced ω)} (h : Settling x) :
    Settling (settleWithin settleStep Bench.pumpRounds x) ∧
      settleStep (settleWithin settleStep Bench.pumpRounds x) = none :=
  step_settleWithin (fun x => x.2.backlog) settling_settleStep h (backlog_le x h)

theorem settleStep_eq_none (hpending : v.pending = false)
    (htaken : v.board.world.taken.length = confirmed) : settleStep (confirmed, v) = none := by
  simp only [settleStep, hpending]
  rw [List.getElem?_eq_none (Nat.le_of_eq htaken)]
  rfl

theorem matched_decided (htaken : v.board.world.taken.length = confirmed) (connection : Connection)
    (bytes : List UInt8) (verdict : Request.Verdict) :
    (v.decided connection bytes verdict).Matched confirmed := by
  cases verdict with
  | waiting => exact htaken
  | accepted request kept => exact htaken
  | refused =>
      simp only [decided, Matched]
      rw [Session.View.taken_dismiss, htaken]

theorem settleStep_settleWithin_decided {d : Device (Traced ω)} {connection : Connection}
    {bytes : List UInt8} {verdict : Request.Verdict}
    (h : d.Follows (v.decided connection bytes verdict)) (hpending : v.pending = false)
    (htaken : v.board.world.taken.length = confirmed) :
    settleStep (settleWithin settleStep Bench.pumpRounds
      (confirmed, v.decided connection bytes verdict)) = none := by
  by_cases hverdict : verdict = .waiting
  · subst hverdict
    have hrest : settleStep (confirmed, v.decided connection bytes .waiting) = none :=
      settleStep_eq_none hpending htaken
    rw [settleWithin_of_none hrest]
    exact hrest
  · have hlabel := (decided_eq_of_ne_waiting hverdict v connection bytes bytes).2
    have hstart : Settling (confirmed, v.decided connection bytes verdict) :=
      ⟨⟨d, h⟩, hlabel, matched_decided htaken connection bytes verdict⟩
    exact (settleStep_settleWithin hstart).2

theorem deliver_of_settling {x : Nat × View (Traced ω)} (h : Settling x) (hrest : settleStep x = none)
    (connection : Connection) (fragments : List (List UInt8)) :
    deliver connection fragments x = x := by
  induction fragments with
  | nil => rfl
  | cons fragment fragments ih =>
      rw [deliver, List.foldl_cons, handle_receive_of_label_ne h.label_ne,
        settleWithin_of_none hrest]
      exact ih

/-- However bytes are cut, what is done about them is what is done about all of them at once. -/
theorem deliver_eq {d : Device (Traced ω)} (h : d.Follows v) {connection : Connection}
    {bytes : List UInt8} (hv : v.session = .request connection bytes)
    (htaken : v.board.world.taken.length = confirmed) {fragments : List (List UInt8)}
    (hfragments : ∀ fragment ∈ fragments, fragment.length ≤ v.config.receiveBufferLength) :
    deliver connection fragments (confirmed, v) =
      settleWithin settleStep Bench.pumpRounds
        (confirmed, v.decided connection (bytes ++ fragments.flatten)
          (Request.verdict v.config (bytes ++ fragments.flatten))) := by
  induction fragments generalizing d v bytes with
  | nil =>
      have hwaits := h.keeps.waits
      have hwaiting := h.shows.session_shows.sound
      rw [hv] at hwaits hwaiting
      have hwaiting' : Request.verdict v.config bytes = .waiting := hwaiting
      have hself : v.decided connection bytes .waiting = v := by rw [decided, ← hv]
      rw [List.flatten_nil, List.append_nil, hwaiting', hself,
        settleWithin_of_none (settleStep_eq_none hwaits.1 htaken)]
      rfl
  | cons fragment fragments ih =>
      have hfirst := handle_receive_of_request hv (hfragments fragment List.mem_cons_self)
      have hnext := h.handle (.receive connection fragment)
      have hlater (other : List UInt8) (hother : other ∈ fragments) :
          other.length ≤ v.config.receiveBufferLength :=
        hfragments other (List.mem_cons_of_mem _ hother)
      have hmatched := matched_decided htaken connection (bytes ++ fragment)
        (Request.verdict v.config (bytes ++ fragment))
      rw [deliver, List.foldl_cons, List.flatten_cons, ← List.append_assoc, hfirst]
      rw [hfirst] at hnext
      by_cases hverdict : Request.verdict v.config (bytes ++ fragment) = .waiting
      · rw [hverdict] at hnext ⊢
        have hwaits := hnext.keeps.waits
        rw [settleWithin_of_none (settleStep_eq_none hwaits.1 htaken)]
        exact ih hnext rfl htaken hlater
      · -- All that is left to do is done after this fragment, so those after it find nothing to do.
        obtain ⟨heq, hlabel⟩ := decided_eq_of_ne_waiting hverdict v connection (bytes ++ fragment)
          (bytes ++ fragment ++ fragments.flatten)
        have hstart : Settling (confirmed, v.decided connection (bytes ++ fragment)
            (Request.verdict v.config (bytes ++ fragment))) := ⟨⟨_, hnext⟩, hlabel, hmatched⟩
        obtain ⟨hsettling, hrest⟩ := settleStep_settleWithin hstart
        have hlast := deliver_of_settling hsettling hrest connection fragments
        rw [deliver] at hlast
        rw [hlast, Request.verdict_append_of_ne_waiting hverdict, heq]

end Device.View

namespace Device

variable {ω : Type} [Platform ω]

/-- Whether two devices are the same to everybody who uses them. -/
structure LooksLike (d e : Device (Traced ω)) : Prop where
  board_eq : d.board = e.board
  running_eq : d.running = e.running
  pending_eq : d.pending = e.pending
  label_eq : d.session.label = e.session.label
  connection_eq : d.session.connection? = e.session.connection?

omit [Platform ω] in
theorem LooksLike.of_shows {d e : Device (Traced ω)} {v : View (Traced ω)} (hd : d.Shows v)
    (he : e.Shows v) : d.LooksLike e :=
  ⟨hd.board_eq.trans he.board_eq.symm, hd.running_eq.trans he.running_eq.symm,
    hd.pending_eq.trans he.pending_eq.symm,
    hd.session_shows.label_eq.trans he.session_shows.label_eq.symm,
    hd.session_shows.connection?_eq.trans he.session_shows.connection?_eq.symm⟩

/-- The device after a connection was made, with nothing on it to be confirmed. -/
def connected (connection : Connection) (d : Device (Traced ω)) : Nat × Device (Traced ω) :=
  (d.board.world.taken.length, d.handle (.connect connection))

theorem Follows.deliver {d : Device (Traced ω)} {v : View (Traced ω)} (h : d.Follows v)
    (hrunning : d.running = true) (hfree : d.session.isAttached = false) (connection : Connection)
    {fragments : List (List UInt8)}
    (hfragments : ∀ fragment ∈ fragments, fragment.length ≤ v.config.receiveBufferLength) :
    Keeping (Device.deliver connection fragments (connected connection d))
      (settleWithin View.settleStep Bench.pumpRounds (v.board.world.taken.length,
        v.decided connection fragments.flatten (Request.verdict v.config fragments.flatten))) := by
  have hconnect : v.handle (.connect connection) = { v with session := .request connection [] } := by
    rw [View.handle, View.connect, if_pos ⟨h.shows.running_eq.symm.trans hrunning,
      h.session_eq_ready hfree⟩]
  have hstart := h.handle (.connect connection)
  rw [hconnect] at hstart
  have hkeeping : Keeping (connected connection d)
      (v.board.world.taken.length, { v with session := .request connection [] }) :=
    ⟨by rw [connected, h.shows.board_eq], hstart⟩
  have hdeliver := hkeeping.deliver connection fragments
  rw [View.deliver_eq hstart rfl rfl hfragments, List.nil_append] at hdeliver
  cases hverdict : Request.verdict v.config fragments.flatten with
  | waiting => rwa [hverdict] at hdeliver
  | accepted request kept => rwa [hverdict] at hdeliver
  | refused => rwa [hverdict] at hdeliver

/-- Two ways to cut the same bytes come to the same: the same calls in the same order and with the same
answers, and devices that nobody can tell apart, whatever happens to them afterwards. Nothing is left to do in
either. -/
theorem deliver_eq_of_flatten_eq {config : Config} {d : Device (Traced ω)} (h : Reachable config d)
    (hrunning : d.running = true) (hfree : d.session.isAttached = false) (connection : Connection)
    {fragments others : List (List UInt8)}
    (hfragments : ∀ fragment ∈ fragments, fragment.length ≤ config.receiveBufferLength)
    (hothers : ∀ fragment ∈ others, fragment.length ≤ config.receiveBufferLength)
    (hflatten : fragments.flatten = others.flatten) :
    (deliver connection fragments (connected connection d)).2.LooksLike
        (deliver connection others (connected connection d)).2 ∧
      settleStep (deliver connection fragments (connected connection d)) = none ∧
      settleStep (deliver connection others (connected connection d)) = none ∧
      ∀ ops : List (Operation ω),
        ((deliver connection fragments (connected connection d)).2.run ops).1 =
            ((deliver connection others (connected connection d)).2.run ops).1 ∧
          ((deliver connection fragments (connected connection d)).2.run ops).2.LooksLike
            ((deliver connection others (connected connection d)).2.run ops).2 := by
  obtain ⟨v, hfollows, rfl⟩ := h.exists_follows
  have hone := hfollows.deliver hrunning hfree connection hfragments
  have hother := hfollows.deliver hrunning hfree connection hothers
  rw [hflatten] at hone
  have hrest := View.settleStep_settleWithin_decided (hfollows.received hrunning hfree connection hothers)
    (hfollows.pending_eq_false hfree) rfl
  refine ⟨LooksLike.of_shows hone.2.shows hother.2.shows, hone.settleStep_eq_none hrest,
    hother.settleStep_eq_none hrest, fun ops => ?_⟩
  obtain ⟨hresults, hlast⟩ := hone.2.run ops
  obtain ⟨hresults', hlast'⟩ := hother.2.run ops
  exact ⟨hresults.trans hresults'.symm, LooksLike.of_shows hlast.shows hlast'.shows⟩

/-- A request to record a signal may arrive at once, or in parts with nothing between them. -/
theorem looksLike_receiveRequest :
    (deliver 7 [[2], [], [0, 0]] (connected 7
        ((fresh {} ⟨{}, []⟩ : Device (Traced Bench)).perform .start).2)).2.LooksLike
      (deliver 7 [[2, 0, 0]] (connected 7
        ((fresh {} ⟨{}, []⟩ : Device (Traced Bench)).perform .start).2)).2 := by
  have hvalid : ({} : Config).validate = .ok () := rfl
  have hfresh : Reachable {} (fresh {} ⟨{}, []⟩ : Device (Traced Bench)) :=
    reachable_fresh hvalid _
  obtain ⟨hrunning, hsession⟩ :=
    start_eq_of_listen (d := (fresh {} ⟨{}, []⟩ : Device (Traced Bench))) rfl rfl
  have hparts : ∀ fragment ∈ ([[2], [], [0, 0]] : List (List UInt8)),
      fragment.length ≤ ({} : Config).receiveBufferLength := by decide
  have hwhole : ∀ fragment ∈ ([[2, 0, 0]] : List (List UInt8)),
      fragment.length ≤ ({} : Config).receiveBufferLength := by decide
  exact (deliver_eq_of_flatten_eq (hfresh.perform .start) hrunning (by rw [hsession]; rfl) 7
    hparts hwhole rfl).1

end Device

end Infrared
