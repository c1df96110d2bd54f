
namespace Infrared.Bench

structure Line where
  idle : Bool
  /-- Times of the changes to come, in order. -/
  edges : List Nat

namespace Line

/-- Turns a resting level over for each change that is due. -/
def turn (now : Nat) : Bool → List Nat → Line
  | idle, [] => ⟨idle, []⟩
  | idle, edge :: edges => if edge ≤ now then turn now (!idle) edges else ⟨idle, edge :: edges⟩

/-- The line as it is from a time on, without the changes that are past. -/
def settle (l : Line) (now : Nat) : Line :=
  turn now l.idle l.edges

/-- The level at a time. -/
def level (l : Line) (now : Nat) : Bool :=
  (l.settle now).idle

/-- The time from which on the level stays as it is. -/
def restsFrom (l : Line) : Nat :=
  l.edges.getLastD 0

/-- The times at which a signal begins and at which each of its pulses ends. -/
def edgeTimes (start : Nat) : List UInt32 → List Nat
  | [] => [start]
  | pulse :: pulses => start :: edgeTimes (start + pulse.toNat) pulses

/-- A line that rests at the level it has now until a signal starts. -/
def schedule (l : Line) (now start : Nat) (pulses : List UInt32) : Line :=
  ⟨l.level now, edgeTimes start pulses⟩

end Line

end Infrared.Bench
