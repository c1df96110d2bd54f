import Infrared.Bench.Pump
import Infrared.Link

namespace Infrared.Bench

structure Loopback where
  device : Device Bench
  connection : Connection
  /-- The signal that is on the air. -/
  signal : List UInt32
  /-- Bytes that the device gets at a time. -/
  chunk : Nat
  /-- Bytes that a write accepts at most. -/
  writeMax : Nat
  toDevice : Array UInt8 := #[]
  toClient : List UInt8 := []

namespace Loopback

/-- Has the signal arrive if the device waits for one. -/
def offerSignal (signal : List UInt32) (d : Device Bench) : Device Bench :=
  let world := d.board.world
  if world.interrupts && world.attached && !signal.isEmpty then
    pump ((update (fun b => b.schedule signal 0) d).handle .edge)
  else d

/-- Runs the device with what the client wrote, and collects what it sends to the client. -/
def serve (l : Loopback) : Loopback :=
  match l with
  | ⟨device, connection, signal, chunk, writeMax, toDevice, toClient⟩ =>
    let device := offerSignal signal (deliver connection chunk toDevice.toList device)
    let reply := (device.board.world.takeSent connection).1
    ⟨update (fun b => (b.takeSent connection).2) device, connection, signal, chunk, writeMax, #[],
      toClient ++ reply⟩

def read (count : Nat) (l : Loopback) : Option (List UInt8) × Loopback :=
  let l := if l.toClient.isEmpty then l.serve else l
  (some (l.toClient.take count), { l with toClient := l.toClient.drop count })

def write (data : List UInt8) (l : Loopback) : Option Nat × Loopback :=
  match l with
  | ⟨device, connection, signal, chunk, writeMax, toDevice, toClient⟩ =>
    let piece := data.take writeMax
    (some piece.length,
      ⟨device, connection, signal, chunk, writeMax, toDevice ++ piece, toClient⟩)

instance : Link Loopback := ⟨read, write⟩

end Loopback

end Infrared.Bench
