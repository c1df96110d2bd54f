
namespace Infrared

/-- Why an operation was refused. -/
inductive Fault where
  /-- Recorded bytes that were asked for are not there. -/
  | noData
  | busy
  | invalidOperation
  | invalidWidth
  | unknownType (code : UInt8)
  | lengthMismatch
  | payloadTooLarge
  | bufferTooSmall
  | invalidConfig
  | unexpectedResponse
  | disconnected
  | io
  deriving DecidableEq, Repr

namespace Fault

/-- The name of the cause, without its argument. -/
def label : Fault → String
  | noData => "NoData"
  | busy => "Busy"
  | invalidOperation => "InvalidOperation"
  | invalidWidth => "InvalidWidth"
  | unknownType _ => "UnknownType"
  | lengthMismatch => "LengthMismatch"
  | payloadTooLarge => "PayloadTooLarge"
  | bufferTooSmall => "BufferTooSmall"
  | invalidConfig => "InvalidConfig"
  | unexpectedResponse => "UnexpectedResponse"
  | disconnected => "Disconnected"
  | io => "Io"

/-- The text of a fault: its label, and for an unknown type the code in decimal. -/
def message : Fault → String
  | unknownType code => "UnknownType(" ++ toString code.toNat ++ ")"
  | fault => fault.label

end Fault

end Infrared
