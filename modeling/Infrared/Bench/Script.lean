import Infrared.Link

namespace Infrared.Bench

structure Script where
  /-- Chunks to be read; nothing stands for a failure. -/
  reads : List (Option (List UInt8))
  /-- How many bytes the writes accept; nothing stands for a failure. -/
  writes : List (Option Nat)
  /-- Accepted bytes, latest piece first. -/
  accepted : List (List UInt8) := []
  /-- How many bytes each write offered, latest first. -/
  offers : List Nat := []

namespace Script

def read (count : Nat) (s : Script) : Option (List UInt8) × Script :=
  match s.reads with
  | [] => (some [], s)
  | none :: rest => (none, { s with reads := rest })
  | some chunk :: rest =>
    if chunk.length ≤ count then (some chunk, { s with reads := rest })
    else (some (chunk.take count), { s with reads := some (chunk.drop count) :: rest })

def write (data : List UInt8) (s : Script) : Option Nat × Script :=
  let s := { s with offers := data.length :: s.offers }
  match s.writes with
  | [] => (some data.length, { s with accepted := data :: s.accepted })
  | none :: rest => (none, { s with writes := rest })
  | some count :: rest =>
    let piece := data.take count
    (some piece.length, { s with writes := rest, accepted := piece :: s.accepted })

instance : Link Script := ⟨read, write⟩

/-- All accepted bytes. -/
def written (s : Script) : List UInt8 :=
  s.accepted.reverse.flatten

/-- Bytes in the chunks that are left. -/
def unread (s : Script) : Nat :=
  (s.reads.flatMap fun chunk => chunk.getD []).length

end Script

end Infrared.Bench
