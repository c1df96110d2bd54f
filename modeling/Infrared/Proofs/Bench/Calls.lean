import Infrared.Bench
import Infrared.Proofs.BoardCalls

namespace Infrared

namespace Call

/-- Whether a call only reads the pin or the clock. -/
def IsReading : Call → Prop
  | level _ | clock => True
  | _ => False

def sent? : Call → Option (Connection × List UInt8)
  | send connection data => some (connection, data)
  | _ => none

/-- The bytes that a call sends on a connection. -/
def sentOn (connection : Connection) : Call → List UInt8
  | send other data => if other = connection then data else []
  | _ => []

/-- Whether an edge interrupt was ever attached, after a call. -/
def attach (attached : Bool) : Call → Bool
  | attachEdge _ => true
  | _ => attached

theorem flatMap_sentOn (connection : Connection) (calls : List Call) :
    ((calls.filterMap sent?).filter (·.1 = connection)).flatMap (·.2) =
      calls.flatMap (sentOn connection) := by
  induction calls with
  | nil => rfl
  | cons call calls ih =>
      cases call with
      | send other data =>
          have hsent : (send other data).sent? = some (other, data) := rfl
          rw [List.filterMap_cons_some hsent, List.flatMap_cons, ← ih, sentOn]
          by_cases hother : other = connection
          · rw [List.filter_cons_of_pos (by simpa using hother), List.flatMap_cons, if_pos hother]
          · rw [List.filter_cons_of_neg (by simpa using hother), if_neg hother, List.nil_append]
      | _ =>
          rw [List.filterMap_cons_none rfl, List.flatMap_cons, ← ih]
          rfl

end Call

-- On the simulated platform the budget is a number that must not be evaluated.
theorem Station.exists_world_capture_of_armed {ω : Type} [Platform ω] {s : Station}
    (h : s.armed = true) (store : Buffer) (world : ω) :
    ∃ budget r, (s.capture store world).2.2.2 = (s.record budget r
      (Platform.sample s.pin (Platform.tell .disableInterrupts world)).2).2.2 :=
  ⟨_, _, by rw [capture_of_armed h]⟩

namespace Bench

/-- The calls in the log, earliest first. -/
def calls (b : Bench) : List Call :=
  b.log.reverse.map (·.call)

structure Makes (calls : List Call) (b c : Bench) : Prop where
  calls_eq : c.calls = b.calls ++ calls
  outbox_eq : c.outbox = (calls.filterMap Call.sent?).reverse ++ b.outbox
  interrupts_eq : c.interrupts = calls.foldl Call.switch b.interrupts
  attached_eq : c.attached = calls.foldl Call.attach b.attached
  tick_eq : c.tick = b.tick
  refusesSend_eq : c.refusesSend = b.refusesSend

namespace Makes

variable {b c e : Bench} {made more : List Call}

theorem nil : Makes [] b b :=
  ⟨(List.append_nil _).symm, rfl, rfl, rfl, rfl, rfl⟩

theorem trans (h : Makes made b c) (h' : Makes more c e) : Makes (made ++ more) b e := by
  refine ⟨?_, ?_, ?_, ?_, h'.tick_eq.trans h.tick_eq, h'.refusesSend_eq.trans h.refusesSend_eq⟩
  · rw [h'.calls_eq, h.calls_eq, List.append_assoc]
  · rw [h'.outbox_eq, h.outbox_eq, List.filterMap_append, List.reverse_append, List.append_assoc]
  · rw [h'.interrupts_eq, h.interrupts_eq, List.foldl_append]
  · rw [h'.attached_eq, h.attached_eq, List.foldl_append]

theorem calls_note (b : Bench) (call : Call) (accepted : Bool) :
    (b.note call accepted).calls = b.calls ++ [call] := by
  simp only [calls, note, List.reverse_cons, List.map_append, List.map_cons, List.map_nil]

theorem reading {call : Call} (h : call.IsReading) (b : Bench) :
    Makes [] b (Platform.perform call b).2 := by
  cases call with
  | level pin => exact ⟨(List.append_nil _).symm, rfl, rfl, rfl, rfl, rfl⟩
  | clock => exact ⟨(List.append_nil _).symm, rfl, rfl, rfl, rfl, rfl⟩
  | _ => exact absurd h id

theorem tell {call : Call} (hreading : ¬call.IsReading) (hsend : ¬call.IsSend) (b : Bench) :
    Makes [call] b (Platform.tell call b) := by
  cases call with
  | level pin => exact absurd trivial hreading
  | clock => exact absurd trivial hreading
  | send connection data => exact absurd trivial hsend
  | _ => exact ⟨calls_note b _ _, rfl, rfl, rfl, rfl, rfl⟩

theorem send (h : b.refusesSend = false) (connection : Connection) (data : List UInt8) :
    Platform.send connection data b = (true, (Platform.send connection data b).2) ∧
      Makes [.send connection data] b (Platform.send connection data b).2 := by
  have hsend : Platform.send connection data b =
      (true, { b.note (.send connection data) true with
        unconfirmed := some connection, outbox := (connection, data) :: b.outbox }) := by
    change Bench.perform (.send connection data) b = _
    simp only [perform, h]
    rfl
  rw [hsend]
  exact ⟨rfl, calls_note b _ _, rfl, rfl, rfl, rfl, rfl⟩

theorem tellAll {told : List Call} (h : ∀ call ∈ told, ¬call.IsReading ∧ ¬call.IsSend) (b : Bench) :
    Makes told b (Platform.tellAll told b) := by
  induction told generalizing b with
  | nil => exact nil
  | cons call told ih =>
      obtain ⟨hreading, hsend⟩ := h call List.mem_cons_self
      exact (tell hreading hsend b).trans
        (ih (fun other hother => h other (List.mem_cons_of_mem _ hother)) (Platform.tell call b))

theorem takeSent_eq (h : Makes made b c) (connection : Connection) :
    (c.takeSent connection).1 =
      (b.takeSent connection).1 ++ made.flatMap (Call.sentOn connection) := by
  simp only [takeSent, h.outbox_eq, List.reverse_append, List.reverse_reverse, List.filter_append,
    List.flatMap_append]
  rw [Call.flatMap_sentOn]

end Makes

theorem makes_sample (pin : UInt8) (b : Bench) : Makes [] b (Platform.sample pin b).2 := by
  have hlevel : (Call.level pin).IsReading := trivial
  have hclock : Call.clock.IsReading := trivial
  exact (Makes.reading hlevel b).trans (Makes.reading hclock _)

theorem makes_record (s : Station) (budget : Nat) (r : Station.Recording) (b : Bench) :
    Makes [] b (s.record budget r b).2.2 := by
  induction budget generalizing r b with
  | zero => exact .nil
  | succ budget ih =>
      rw [Station.record_succ]
      split
      · exact makes_sample s.pin b
      · exact (makes_sample s.pin b).trans (ih _ _)

theorem makes_capture (s : Station) (store : Buffer) (b : Bench) :
    Makes [.disableInterrupts] b (s.capture store b).2.2.2 := by
  have htell : Makes [.disableInterrupts] b (Platform.tell .disableInterrupts b) := .tell id id b
  cases harmed : s.armed with
  | false =>
      rw [Station.capture_of_not_armed harmed]
      exact htell
  | true =>
      obtain ⟨budget, r, hworld⟩ := Station.exists_world_capture_of_armed harmed store b
      rw [hworld]
      exact htell.trans ((makes_sample s.pin _).trans (makes_record s budget r _))

end Bench

namespace Waveform

theorem not_isReading_of_mem_calls {pin : UInt8} {half : UInt32} {durations : List UInt32}
    {call : Call} (h : call ∈ calls pin half durations) : ¬call.IsReading := by
  rcases mem_calls h with ⟨_, rfl⟩ | ⟨_, rfl⟩ | ⟨_, rfl⟩
  · exact id
  · exact id
  · exact id

end Waveform

namespace Board

variable (b : Board Bench)

theorem makes_transmit (frequency : UInt32) (pulses : List UInt8) :
    Bench.Makes (Waveform.calls b.sendPin (Waveform.halfPeriod frequency)
      (b.station.durations pulses)) b.world (b.transmit frequency pulses).world :=
  .tellAll (fun _ h => ⟨Waveform.not_isReading_of_mem_calls h, Waveform.not_isSend_of_mem_calls h⟩) _

theorem makes_armCapture :
    Bench.Makes [.input b.receivePin, .disableInterrupts, .clearEdge b.receivePin,
      .attachEdge b.receivePin, .enableInterrupts] b.world b.armCapture.world := by
  refine .tellAll ?_ b.world
  simp only [List.forall_mem_cons]
  exact ⟨⟨id, id⟩, ⟨id, id⟩, ⟨id, id⟩, ⟨id, id⟩, ⟨id, id⟩, List.forall_mem_nil _⟩

theorem makes_dismiss (connection : Connection) :
    Bench.Makes [.close connection, .disableInterrupts] b.world
      (Session.View.dismiss connection b).world :=
  (Bench.Makes.tell id id b.world).trans (.tell id id _)

theorem makes_apply (reply : Reply) (kept : List UInt8) :
    Bench.Makes (match reply with
      | .configured name ssid password =>
        if b.listener then
          [.configured (b.rename (name.of kept)).2.name.filled (ssid.of kept) (password.of kept)]
        else []
      | _ => []) b.world (Session.View.apply reply kept b).world := by
  cases reply with
  | sent => exact .nil
  | captured count => exact .nil
  | configured name ssid password =>
      have hlistener : (b.rename (name.of kept)).2.listener = b.listener := rfl
      simp only [Session.View.apply, announce, hlistener]
      split
      · exact .tell id id _
      · exact .nil

end Board

end Infrared
