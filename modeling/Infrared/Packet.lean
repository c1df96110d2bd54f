import Infrared.PulseWidth

namespace Infrared.Packet

def protocolVersion : Nat := 1

/-- Bytes of the type and the length in front of every body. -/
def headLength : Nat := 3

/-- Bytes of the frequency and the count in front of the pulses. -/
def pulsesHeadLength : Nat := 6

/-- Bytes of the port and the name's length in front of the name in a beacon. -/
def beaconHeadLength : Nat := 3

/-- The largest number that a 16-bit length or count can hold. -/
def lengthLimit : Nat := 65535

/-- The largest length of a string that follows its length in one byte. -/
def stringLimit : Nat := 255

inductive Kind where
  | sendRequest
  | sendResponse
  | receiveRequest
  | receiveResponse
  | configRequest
  | configResponse
  deriving DecidableEq, Repr

namespace Kind

def code : Kind → UInt8
  | sendRequest => 0
  | sendResponse => 1
  | receiveRequest => 2
  | receiveResponse => 3
  | configRequest => 4
  | configResponse => 5

def ofCode (code : UInt8) : Except Fault Kind :=
  if code = 0 then .ok sendRequest
  else if code = 1 then .ok sendResponse
  else if code = 2 then .ok receiveRequest
  else if code = 3 then .ok receiveResponse
  else if code = 4 then .ok configRequest
  else if code = 5 then .ok configResponse
  else .error (.unknownType code)

def label : Kind → String
  | sendRequest => "SendRequest"
  | sendResponse => "SendResponse"
  | receiveRequest => "ReceiveRequest"
  | receiveResponse => "ReceiveResponse"
  | configRequest => "ConfigRequest"
  | configResponse => "ConfigResponse"

/-- The type of the answer to a request. -/
def response? : Kind → Option Kind
  | sendRequest => some sendResponse
  | receiveRequest => some receiveResponse
  | configRequest => some configResponse
  | _ => none

def isRequest (kind : Kind) : Bool :=
  kind.response?.isSome

theorem ofCode_code (kind : Kind) : ofCode kind.code = .ok kind := by cases kind <;> rfl

end Kind

/-- A length, if 16 bits can hold it. -/
def checkLength (length : Nat) : Except Fault Nat :=
  if length ≤ lengthLimit then .ok length else .error .payloadTooLarge

/-- Body length of a packet that carries `count` pulses. -/
def pulsesBodyLength (count : Nat) (width : PulseWidth) : Except Fault Nat :=
  checkLength (pulsesHeadLength + count * width.bytes)

/-- Body length of a configuration request. -/
def configBodyLength (name ssid password : List UInt8) : Except Fault Nat :=
  if [name, ssid, password].any (fun text => stringLimit < text.length) then .error .payloadTooLarge
  else checkLength (3 + name.length + ssid.length + password.length)

end Infrared.Packet
