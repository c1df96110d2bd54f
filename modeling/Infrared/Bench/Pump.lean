import Infrared.Bench
import Infrared.Device

namespace Infrared.Bench

/-- Changes the simulated platform under a device. -/
def update (f : Bench → Bench) (d : Device Bench) : Device Bench :=
  match d with
  | ⟨config, session, board, running, pending⟩ =>
    ⟨config, session, { board with world := f board.world }, running, pending⟩

/-- One thing that is left to do: to run the session, or to confirm a send. -/
def pumpOnce (d : Device Bench) : Option (Device Bench) :=
  if d.pending then some d.runPending.2
  else
    match d.board.world.unconfirmed with
    | some connection =>
      some ((update (fun b => { b with unconfirmed := none }) d).handle (.sent connection))
    | none => none

def pumpWithin : Nat → Device Bench → Device Bench
  | 0, d => d
  | rounds + 1, d =>
    match pumpOnce d with
    | some d => pumpWithin rounds d
    | none => d

/-- Rounds after which nothing is left to do. Each round after the first two confirms at least one byte of a
reply, and a reply is a packet. -/
def pumpRounds : Nat :=
  2 + Packet.headLength + Packet.lengthLimit + 1

/-- Runs the session and confirms its sends until nothing is left to do. -/
def pump (d : Device Bench) : Device Bench :=
  pumpWithin pumpRounds d

/-- Bytes cut into pieces of a length that is not zero. -/
def cut (length : Nat) (bytes : List UInt8) : List (List UInt8) :=
  match bytes with
  | [] => []
  | byte :: rest =>
    (byte :: rest.take (length - 1)) :: cut length (rest.drop (length - 1))
termination_by bytes.length
decreasing_by simp only [List.length_drop, List.length_cons]; omega

/-- Has bytes arrive on a connection in pieces, and runs the device after each of them. -/
def deliver (connection : Connection) (length : Nat) (data : List UInt8) (d : Device Bench) :
    Device Bench :=
  (cut length data).foldl (fun d piece => pump (d.handle (.receive connection piece))) d

end Infrared.Bench
