import Infrared.Proofs.Device.Discipline
import Infrared.Proofs.Device.Service

namespace Infrared

variable {ω : Type}

/-- Whether the timer is armed after a call, if it was or was not before. -/
def Call.time (armed : Bool) : Call → Bool
  | arm _ => true
  | disarm => false
  | _ => armed

theorem Call.foldl_time {calls : List Call} (h : ∀ call ∈ calls, ¬call.OfService) (armed : Bool) :
    calls.foldl Call.time armed = armed := by
  induction calls with
  | nil => rfl
  | cons call calls ih =>
      have hcall : call.time armed = armed := by
        cases call with
        | arm delay => exact absurd trivial (h _ List.mem_cons_self)
        | disarm => exact absurd trivial (h _ List.mem_cons_self)
        | _ => rfl
      rw [List.foldl_cons, hcall]
      exact ih fun other hother => h other (List.mem_cons_of_mem _ hother)

theorem Beacon.foldl_time_tickCalls (b : Beacon) :
    b.tickCalls.foldl Call.time false = b.running := by
  rw [tickCalls]
  cases b.running with
  | false => rfl
  | true =>
      rw [if_pos rfl, List.foldl_append]
      rfl

namespace Device

/-- The same for an operation: a timer that runs out is not armed any more when the device is told of it. -/
def Operation.time (armed : Bool) : Operation ω → Bool
  | .handle .timer => false
  | _ => armed

def Moment.time (armed : Bool) : Moment ω → Bool
  | operation op => op.time armed
  | call entry => entry.call.time armed

/-- Whether the timer is armed at the end of a log, if it was not when the log began. -/
def timerArmed (log : List (Moment ω)) : Bool :=
  log.foldl Moment.time false

theorem foldl_time_moments (op : Operation ω) (entries : List Entry) (armed : Bool) :
    (moments op entries).foldl Moment.time armed =
      (entries.map (·.call)).foldl Call.time (op.time armed) := by
  rw [moments, List.foldl_cons, List.foldl_map, List.foldl_map]
  rfl

variable [Platform ω] {config : Config} {d : Device (Traced ω)} {v : View (Traced ω)}

/-- Whether the calls of an operation leave the timer armed if the device runs after it, and not otherwise. -/
def View.Times (v : View (Traced ω)) (op : Operation ω) : Prop :=
  ∃ calls, Traced.Adds calls v.board.world (v.perform op).2.board.world ∧
    calls.foldl Call.time (op.time v.running) = (v.perform op).2.running

theorem View.times_start (v : View (Traced ω)) : v.Times .start := by
  simp only [Times, View.perform, View.start]
  split
  · exact ⟨[], .nil, rfl⟩
  · have hlisten : Traced.Adds [.listen v.config.port] v.board.world
        (Platform.listen v.config.port v.board.packBeacon.2.world).2 := Traced.adds_listen _ _
    cases hanswer : Platform.listen v.config.port v.board.packBeacon.2.world with
    | mk accepted world =>
        rw [hanswer] at hlisten
        cases accepted with
        | true => exact ⟨_, hlisten.trans (Traced.adds_tell _ world), rfl⟩
        | false => exact ⟨_, hlisten, rfl⟩

theorem View.times_stop (v : View (Traced ω)) : v.Times .stop := by
  have hshut (b : Board (Traced ω)) : Traced.Adds [.disarm, .shutdown] b.world (shutDown b).world :=
    (Traced.adds_tell .disarm b.world).trans (Traced.adds_tell .shutdown _)
  simp only [Times, View.perform, View.stop]
  split
  · cases v.session.connection? with
    | some connection =>
        exact ⟨_, (Session.View.adds_dismiss connection v.board).trans (hshut _), rfl⟩
    | none => exact ⟨_, hshut v.board, rfl⟩
  · exact ⟨[], .nil, rfl⟩

theorem View.times_perform (h : v.board.beacon.Serves v.config v.running) (op : Operation ω) :
    v.Times op := by
  by_cases hstart : op = .start
  · subst hstart
    exact v.times_start
  by_cases hstop : op = .stop
  · subst hstop
    exact v.times_stop
  by_cases htimer : op = .handle .timer
  · subst htimer
    refine ⟨_, Traced.adds_tellAll v.board.beacon.tickCalls v.board.world, ?_⟩
    exact v.board.beacon.foldl_time_tickCalls.trans h.running_eq
  · obtain ⟨⟨calls, hadds, hcalls⟩, hrunning⟩ := v.attends_perform hstart hstop htimer
    have hop : op.time v.running = v.running := by
      cases op with
      | handle event =>
          cases event with
          | timer => exact absurd rfl htimer
          | _ => rfl
      | _ => rfl
    exact ⟨calls, hadds, by rw [hop, Call.foldl_time hcalls, hrunning]⟩

/-- A timer that is armed exactly while the device runs is so after each operation. -/
theorem Reachable.foldl_time_moments_added (h : Reachable config d) (op : Operation ω) :
    (moments op (d.added op)).foldl Moment.time d.running = (d.perform op).2.running := by
  have hserves := h.beacon_serves
  obtain ⟨v, hfollows, rfl⟩ := h.exists_follows
  rw [hfollows.shows.board_eq, hfollows.shows.running_eq] at hserves
  obtain ⟨calls, hadds, hrunning⟩ := View.times_perform hserves op
  rw [foldl_time_moments, hfollows.map_call_added hadds, hfollows.shows.running_eq, hrunning,
    (hfollows.perform op).2.shows.running_eq]

/-- What a device does when its timer runs out, and how its network answers. -/
theorem Reachable.added_timer (h : Reachable config d) :
    d.added (.handle .timer) =
      if d.running then
        (if d.board.beacon.payload.data = [] then [] else
          [⟨.broadcast config.beaconPort d.board.beacon.payload.data,
            (Platform.perform (.broadcast config.beaconPort d.board.beacon.payload.data)
              d.board.world.world).1⟩]) ++ [⟨.arm config.beaconInterval, ()⟩]
      else [] := by
  have hserves := h.beacon_serves
  have hworld : (d.perform (.handle .timer)).2.board.world =
      Platform.tellAll d.board.beacon.tickCalls d.board.world := rfl
  rw [added, hworld]
  cases hrunning : d.running with
  | false =>
      have hcalls : d.board.beacon.tickCalls = [] := by
        rw [Beacon.tickCalls, hserves.running_eq, hrunning]
        rfl
      rw [hcalls]
      exact List.drop_length
  | true =>
      rw [hrunning] at hserves
      rw [hserves.tickCalls_eq, if_pos rfl]
      split
      · exact List.drop_left
      · have hhistory : (Platform.tellAll ([.broadcast config.beaconPort d.board.beacon.payload.data] ++
            [.arm config.beaconInterval]) d.board.world).history =
            d.board.world.history ++ ([⟨.broadcast config.beaconPort d.board.beacon.payload.data,
              (Platform.perform (.broadcast config.beaconPort d.board.beacon.payload.data)
                d.board.world.world).1⟩] ++ [⟨.arm config.beaconInterval, ()⟩]) :=
          List.append_assoc _ _ _
        rw [hhistory, List.drop_left]

theorem Reachable.foldl_time_log (h : Reachable config d) (ops : List (Operation ω)) :
    (d.log ops).foldl Moment.time d.running = (d.run ops).2.running := by
  induction ops generalizing d with
  | nil => rfl
  | cons op ops ih =>
      rw [log, List.foldl_append, h.foldl_time_moments_added op]
      exact ih (h.perform op)

/-- Whatever happens to a device, its timer is armed exactly while it runs. When the timer runs out, a device that
runs broadcasts its payload once if it has one, and arms the timer again, however the broadcast is answered; one
that does not run makes no call. -/
theorem timer_run (hvalid : config.validate = .ok ()) (world : ω) (ops : List (Operation ω)) :
    let new : Device (Traced ω) := fresh config ⟨world, []⟩
    let d := (new.run ops).2
    timerArmed (new.log ops) = d.running ∧
      (d.running = true → d.added (.handle .timer) =
        (if d.board.beacon.payload.data = [] then [] else
          [⟨.broadcast config.beaconPort d.board.beacon.payload.data,
            (Platform.perform (.broadcast config.beaconPort d.board.beacon.payload.data)
              d.board.world.world).1⟩]) ++ [⟨.arm config.beaconInterval, ()⟩]) ∧
      (d.running = false → d.added (.handle .timer) = []) := by
  intro new d
  have hnew : Reachable config new := reachable_fresh hvalid world
  have htimer := (hnew.run ops).added_timer
  refine ⟨hnew.foldl_time_log ops, fun hrunning => ?_, fun hstopped => ?_⟩
  · rwa [if_pos hrunning] at htimer
  · have hnot : ¬d.running = true := by simp [hstopped]
    rwa [if_neg hnot] at htimer

/-- A datagram that the network refuses does not keep the timer from being armed again. -/
theorem timer_run_refused :
    let new : Device (Traced Bench) := fresh {} ⟨{ refusesBroadcast := true }, []⟩
    let ops : List (Operation Bench) := [.setName [65], .start, .handle .timer]
    let d := (new.run ops).2
    ({} : Config).validate = .ok () ∧ d.running = true ∧ timerArmed (new.log ops) = true ∧
      d.added (.handle .timer) = [⟨.broadcast 8888 [4, 210, 1, 65], false⟩, ⟨.arm 1000, ()⟩] := by
  intro new ops d
  have hvalid : ({} : Config).validate = .ok () := rfl
  have hrunning : d.running = true := by decide +kernel
  have hpayload : d.board.beacon.payload.data = [4, 210, 1, 65] := by decide +kernel
  obtain ⟨harmed, hruns, -⟩ := timer_run hvalid ({ refusesBroadcast := true } : Bench) ops
  have hcalls := hruns hrunning
  rw [if_neg (by rw [hpayload]; simp)] at hcalls
  refine ⟨hvalid, hrunning, harmed.trans hrunning, hcalls.trans ?_⟩
  rw [hpayload]
  rfl

end Device

end Infrared
