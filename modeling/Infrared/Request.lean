import Infrared.Station

namespace Infrared

/-- A run of bytes in the scratch store. -/
structure Span where
  start : Nat
  length : Nat
  deriving DecidableEq, Repr

/-- The bytes of a span, if the store still has them all. -/
def Span.read? (s : Span) (store : Buffer) : Option (List UInt8) :=
  store.slice? s.start s.length

inductive Request where
  /-- Send the pulses in the scratch store. -/
  | send (frequency : UInt32)
  /-- Record a signal; the report is there once it was recorded. -/
  | receive (report : Option Station.Report)
  | config (name ssid password : Span)
  deriving DecidableEq, Repr

end Infrared
