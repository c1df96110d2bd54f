import Infrared.Fault

namespace Infrared

class Link (σ : Type) where
  /-- Up to the given number of bytes, none if the other side closed, nothing if the link failed. -/
  read : Nat → σ → Option (List UInt8) × σ
  /-- How many of the bytes were accepted, nothing if the link failed. -/
  write : List UInt8 → σ → Option Nat × σ

namespace Link

variable {σ : Type} [Link σ]

/-- Reads a number of bytes and adds them to those it got. -/
def collect (count : Nat) (got : Array UInt8) (s : σ) : Except Fault Unit × Array UInt8 × σ :=
  if count = 0 then (.ok (), got, s)
  else
    match read count s with
    | (none, s) => (.error .io, got, s)
    | (some bytes, s) =>
      match bytes.take count with
      | [] => (.error .disconnected, got, s)
      | byte :: rest => collect (count - (rest.length + 1)) (got ++ (byte :: rest)) s
termination_by count

/-- Fills `dest` from its front; what could not be filled stays as it was. -/
def readExact (dest : List UInt8) (s : σ) : Except Fault Unit × List UInt8 × σ :=
  match collect dest.length #[] s with
  | (result, got, s) => (result, got.toList ++ dest.drop got.size, s)

/-- Reads a block of a given length. -/
def readBlock (length : Nat) (s : σ) : Except Fault (List UInt8) × σ :=
  match collect length #[] s with
  | (.ok _, got, s) => (.ok got.toList, s)
  | (.error fault, _, s) => (.error fault, s)

/-- Writes all of the bytes. -/
def writeAll (data : List UInt8) (s : σ) : Except Fault Unit × σ :=
  match data with
  | [] => (.ok (), s)
  | byte :: rest =>
    match write (byte :: rest) s with
    | (none, s) => (.error .io, s)
    | (some 0, s) => (.error .disconnected, s)
    | (some (accepted + 1), s) => writeAll (rest.drop accepted) s
termination_by data.length
decreasing_by simp only [List.length_drop, List.length_cons]; omega

end Link

end Infrared
