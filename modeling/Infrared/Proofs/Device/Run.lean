import Infrared.Proofs.BoardCalls
import Infrared.Proofs.Device.View

namespace Infrared.Device

/-- What can happen to a device. -/
inductive Operation (ω : Type) where
  | setListener
  | setName (name : List UInt8)
  | generateName (chip : UInt32)
  | start
  | stop
  | runPending
  | handle (event : Event)
  /-- The surroundings change by themselves. -/
  | surroundings (change : ω → ω)

inductive Outcome where
  | nothing
  | result (result : Except Fault Unit)
  | ran (was : Bool)

def change {ω : Type} (f : ω → ω) (b : Board (Traced ω)) : Board (Traced ω) :=
  { b with world := ⟨f b.world.world, b.world.history⟩ }

variable {ω : Type} [Platform ω]

def perform (d : Device (Traced ω)) : Operation ω → Outcome × Device (Traced ω)
  | .setListener => (.nothing, d.setListener)
  | .setName name => (.result (d.setName name).1, (d.setName name).2)
  | .generateName chip => (.result (d.generateName chip).1, (d.generateName chip).2)
  | .start => (.result d.start.1, d.start.2)
  | .stop => (.nothing, d.stop)
  | .runPending => (.ran d.runPending.1, d.runPending.2)
  | .handle event => (.nothing, d.handle event)
  | .surroundings f => (.nothing, { d with board := change f d.board })

def run (d : Device (Traced ω)) : List (Operation ω) → List Outcome × Device (Traced ω)
  | [] => ([], d)
  | op :: ops => ((d.perform op).1 :: ((d.perform op).2.run ops).1, ((d.perform op).2.run ops).2)

/-- Whether a run comes to a device, from a new one whose interrupts are disabled. -/
inductive Reachable (config : Config) : Device (Traced ω) → Prop where
  | new {world : ω} {d : Device (Traced ω)} (h : Device.new config ⟨world, []⟩ = .ok d) :
    Reachable config d
  | perform {d : Device (Traced ω)} (h : Reachable config d) (op : Operation ω) :
    Reachable config (d.perform op).2

/-- A device that was not run yet. -/
def fresh {ω : Type} (config : Config) (world : ω) : Device ω :=
  ⟨config, Session.new config, Board.new config world, false, false⟩

theorem reachable_fresh {config : Config} (h : config.validate = .ok ()) (world : ω) :
    Reachable config (fresh config ⟨world, []⟩) := by
  apply Reachable.new
  rw [Device.new, h]
  rfl

theorem Reachable.run {config : Config} {d : Device (Traced ω)} (h : Reachable config d)
    (ops : List (Operation ω)) : Reachable config (d.run ops).2 := by
  induction ops generalizing d with
  | nil => exact h
  | cons op ops ih => exact ih (h.perform op)

theorem start_eq_of_listen {d : Device (Traced ω)} (hrunning : d.running = false)
    (hlisten : (Platform.listen d.config.port d.board.world).1 = true) :
    (d.perform .start).2.running = true ∧ (d.perform .start).2.session = d.session := by
  have hworld : d.board.packBeacon.2.world = d.board.world := rfl
  simp only [perform, start, hrunning, hworld]
  cases hanswer : Platform.listen d.config.port d.board.world with
  | mk accepted world =>
      rw [hanswer] at hlisten
      dsimp only at hlisten
      subst hlisten
      exact ⟨rfl, rfl⟩

namespace View

def perform (v : View (Traced ω)) : Operation ω → Outcome × View (Traced ω)
  | .setListener => (.nothing, v.setListener)
  | .setName name => (.result (v.setName name).1, (v.setName name).2)
  | .generateName chip => (.result (v.generateName chip).1, (v.generateName chip).2)
  | .start => (.result v.start.1, v.start.2)
  | .stop => (.nothing, v.stop)
  | .runPending => (.ran v.runPending.1, v.runPending.2)
  | .handle event => (.nothing, v.handle event)
  | .surroundings f => (.nothing, { v with board := change f v.board })

def run (v : View (Traced ω)) : List (Operation ω) → List Outcome × View (Traced ω)
  | [] => ([], v)
  | op :: ops => ((v.perform op).1 :: ((v.perform op).2.run ops).1, ((v.perform op).2.run ops).2)

end View

end Device

/-- Interrupts are enabled exactly while a capture is armed, and its pulses are as wide as the device's. -/
structure Board.Keeps {ω : Type} (config : Config) (b : Board (Traced ω)) : Prop where
  width_eq : b.station.pulseWidth = config.pulseWidth
  interrupts_eq : b.world.interruptsEnabled = b.station.armed

namespace Board.Keeps

variable {ω : Type} {config : Config} {b c : Board (Traced ω)}

theorem of_adds (h : b.Keeps config) {calls : List Call} (hadds : Traced.Adds calls b.world c.world)
    (hwidth : c.station.pulseWidth = b.station.pulseWidth)
    (hswitch : calls.foldl Call.switch b.station.armed = c.station.armed) : c.Keeps config := by
  refine ⟨hwidth.trans h.width_eq, ?_⟩
  rw [hadds.interruptsEnabled_eq, h.interrupts_eq, hswitch]

theorem of_eq (h : b.Keeps config) (hstation : c.station = b.station) (hworld : c.world = b.world) :
    c.Keeps config := by
  refine ⟨by rw [hstation]; exact h.width_eq, ?_⟩
  rw [hworld, hstation]
  exact h.interrupts_eq

theorem change (h : b.Keeps config) (f : ω → ω) : (Device.change f b).Keeps config :=
  ⟨h.width_eq, h.interrupts_eq⟩

variable [Platform ω]

theorem tell (h : b.Keeps config) {call : Call} (hcall : ∀ enabled, call.switch enabled = enabled) :
    (b.tell call).Keeps config :=
  h.of_adds (b.adds_tell call) rfl (hcall _)

theorem resetStation (h : b.Keeps config) : b.resetStation.Keeps config :=
  h.of_adds b.adds_resetStation rfl rfl

theorem dismiss (h : b.Keeps config) (connection : Connection) :
    (Session.View.dismiss connection b).Keeps config :=
  (h.tell fun _ => rfl).resetStation

theorem transmit (h : b.Keeps config) (frequency : UInt32) (pulses : List UInt8) :
    (b.transmit frequency pulses).Keeps config :=
  h.of_adds (b.adds_transmit frequency pulses) rfl (Waveform.foldl_switch_calls _ _ _ _)

theorem armCapture (h : b.Keeps config) : b.armCapture.Keeps config :=
  h.of_adds b.adds_armCapture rfl rfl

theorem capture (h : b.Keeps config) (store : Buffer) : (b.capture store).2.1.Keeps config := by
  obtain ⟨count, hadds⟩ := b.exists_adds_capture store
  have hswitch := Station.foldl_switch_samples b.station.pin count false
  cases harmed : b.station.armed with
  | true =>
      obtain ⟨report, -, hstation⟩ := Board.capture_of_armed harmed store
      exact h.of_adds hadds (by rw [hstation]) (by rw [hstation]; exact hswitch)
  | false =>
      have hstation : (b.capture store).2.1.station = b.station := by
        rw [Board.capture_of_not_armed harmed]
        rfl
      exact h.of_adds hadds (by rw [hstation]) (by rw [hstation, harmed]; exact hswitch)

theorem send (h : b.Keeps config) (connection : Connection) (data : List UInt8) :
    Board.Keeps config { b with world := (Platform.send connection data b.world).2 } :=
  h.of_adds (Traced.adds_send connection data b.world) rfl rfl

theorem apply (h : b.Keeps config) (reply : Reply) (kept : List UInt8) :
    (Session.View.apply reply kept b).Keeps config := by
  obtain ⟨calls, hadds, hcalls⟩ := Session.View.exists_adds_apply reply kept b
  refine h.of_adds hadds (by rw [Session.View.station_apply]) ?_
  rw [Session.View.station_apply]
  clear hadds
  induction calls with
  | nil => rfl
  | cons call calls ih =>
      obtain ⟨name, ssid, password, rfl⟩ := hcalls call List.mem_cons_self
      exact ih fun other hother => hcalls other (List.mem_cons_of_mem _ hother)

theorem respond (h : b.Keeps config) (connection : Connection) (reply : Reply) (kept : List UInt8)
    (sent : Nat) :
    (Session.View.respond config connection reply kept sent b).2.2.Keeps config := by
  have hsend := h.send connection (Session.View.piece config reply kept sent)
  simp only [Session.View.respond]
  split
  · exact (h.apply reply kept).dismiss connection
  · cases hanswer : Platform.send connection (Session.View.piece config reply kept sent) b.world with
    | mk accepted world =>
        rw [hanswer] at hsend
        cases accepted with
        | true => exact hsend
        | false => exact hsend.dismiss connection

end Board.Keeps

end Infrared
