import Infrared.Platform

namespace Infrared.Waveform

/-- Half a period of a carrier in whole microseconds, zero for no carrier. -/
def halfPeriod (frequency : UInt32) : UInt32 :=
  if frequency = 0 then 0 else 1000000 / frequency / 2

def space (pin : UInt8) (duration : UInt32) : List Call :=
  [.write pin false, .delay duration]

/-- Half cycles from the given one on; those with an even index are high. -/
def halfCycles (pin : UInt8) (half : UInt32) (count : Nat) : List Call :=
  (List.range count).flatMap fun i => [.write pin (i % 2 == 0), .delay half]

def mark (pin : UInt8) (half duration : UInt32) : List Call :=
  if half = 0 then space pin duration
  else halfCycles pin half (duration / half).toNat ++ [.write pin false]

/-- Marks and spaces in turn. -/
def pulses (pin : UInt8) (half : UInt32) : List UInt32 → List Call
  | [] => []
  | [last] => mark pin half last
  | m :: s :: rest => mark pin half m ++ space pin s ++ pulses pin half rest

/-- All calls of a transmission. The pin is an output and low before it, and low after it. -/
def calls (pin : UInt8) (half : UInt32) (durations : List UInt32) : List Call :=
  .output pin false :: pulses pin half durations ++ [.write pin false]

end Infrared.Waveform
