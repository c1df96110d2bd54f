import Infrared.Bench.Loopback
import Infrared.Proofs.Client.Wire
import Infrared.Proofs.Link
import Infrared.Proofs.Pieces

namespace Infrared

namespace Bench.Loopback

/-- The link with more bytes that the client wrote. -/
def posted (l : Loopback) (data : List UInt8) : Loopback :=
  { l with toDevice := l.toDevice ++ data }

variable {l : Loopback} {count : Nat}

theorem posted_nil (l : Loopback) : l.posted [] = l := by
  simp [posted]

theorem posted_posted (l : Loopback) (data more : List UInt8) :
    (l.posted data).posted more = l.posted (data ++ more) := by
  simp only [posted, Link.got_append]

theorem write_eq (data : List UInt8) (l : Loopback) :
    (Link.write data l : Option Nat × Loopback) =
      (some (data.take l.writeMax).length, l.posted (data.take l.writeMax)) := rfl

theorem writeAll_eq (h : 0 < l.writeMax) (data : List UInt8) :
    Link.writeAll data l = (.ok (), l.posted data) := by
  obtain ⟨limit, hlimit⟩ : ∃ limit, limit = l.writeMax := ⟨_, rfl⟩
  rw [← hlimit] at h
  induction data using cut_induction h generalizing l with
  | nil => rw [Link.writeAll_nil, posted_nil]
  | piece data hdata ih =>
      have hwrite := l.write_eq data
      rw [← hlimit] at hwrite
      have hrest := ih (l := l.posted (data.take limit)) hlimit
      rw [posted_posted, List.take_append_drop] at hrest
      rw [Link.writeAll_of_take hdata h hwrite, hrest]

theorem read_of_ne_nil (h : l.toClient ≠ []) (count : Nat) :
    (Link.read count l : Option (List UInt8) × Loopback) =
      (some (l.toClient.take count), { l with toClient := l.toClient.drop count }) := by
  show Loopback.read count l = _
  have hsome : l.toClient.isEmpty = false := by simpa using h
  simp only [read, hsome]
  rfl

theorem read_of_nil (h : l.toClient = []) (count : Nat) :
    (Link.read count l : Option (List UInt8) × Loopback) =
      (some (l.serve.toClient.take count),
        { l.serve with toClient := l.serve.toClient.drop count }) := by
  show Loopback.read count l = _
  have hnone : l.toClient.isEmpty = true := by simpa using h
  simp only [read, hnone]
  rfl

/-- Bytes that wait for the client are read at once. -/
theorem collect_of_le (h : count ≤ l.toClient.length) (got : Array UInt8) :
    Link.collect count got l =
      (.ok (), got ++ l.toClient.take count, { l with toClient := l.toClient.drop count }) := by
  by_cases hzero : count = 0
  · subst hzero
    simp [Link.collect_zero]
  · have hlength : (l.toClient.take count).length = count := List.length_take_of_le h
    have htake : l.toClient.take count ≠ [] := List.ne_nil_of_length_pos (by omega)
    have hsome : l.toClient ≠ [] := List.ne_nil_of_length_pos (by omega)
    rw [Link.collect_of_read (read_of_ne_nil hsome count) (Nat.le_of_eq hlength) htake, hlength,
      Nat.sub_self, Link.collect_zero]

/-- What the client reads first is what the device sends once it was served. -/
theorem collect_of_nil (h : l.toClient = []) (hcount : 0 < count) (got : Array UInt8) :
    Link.collect count got l =
      if l.serve.toClient = [] then (.error .disconnected, got, l.serve)
      else Link.collect count got l.serve := by
  rw [Link.collect, if_neg (Nat.ne_of_gt hcount), read_of_nil h]
  by_cases hserve : l.serve.toClient = []
  · have hsame : ({ l.serve with toClient := [] } : Loopback) = l.serve := by rw [← hserve]
    rw [if_pos hserve, hserve, List.take_nil, List.drop_nil, hsame]
    dsimp only
    rw [List.take_nil]
  · rw [if_neg hserve, Link.collect, if_neg (Nat.ne_of_gt hcount), read_of_ne_nil hserve]

theorem readBlock_of_le (h : count ≤ l.toClient.length) :
    Link.readBlock count l =
      (.ok (l.toClient.take count), { l with toClient := l.toClient.drop count }) := by
  rw [Link.readBlock, collect_of_le h]
  simp

theorem readBlock_of_length_eq {bytes : List UInt8} (h : bytes.length = count)
    (hclient : l.toClient = bytes) :
    Link.readBlock count l = (.ok bytes, { l with toClient := [] }) := by
  subst hclient
  rw [readBlock_of_le (Nat.le_of_eq h.symm), List.take_of_length_le (Nat.le_of_eq h),
    List.drop_eq_nil_of_le (Nat.le_of_eq h)]

theorem readBlock_of_nil (h : l.toClient = []) (hcount : 0 < count) :
    Link.readBlock count l =
      if l.serve.toClient = [] then (.error .disconnected, l.serve)
      else Link.readBlock count l.serve := by
  rw [Link.readBlock, collect_of_nil h hcount]
  by_cases hserve : l.serve.toClient = []
  · rw [if_pos hserve, if_pos hserve]
  · rw [if_neg hserve, if_neg hserve, Link.readBlock]

end Bench.Loopback

namespace Client

open Bench

variable {client : Client} {config : Config} {l : Loopback}

theorem readReply_of_nil (h : l.toClient = []) (hserve : l.serve.toClient = [])
    (kind : Packet.Kind) : client.readReply kind l = (.error .disconnected, l.serve) := by
  have hlength : 0 < Packet.headLength := by decide
  rw [readReply, Loopback.readBlock_of_nil h hlength, if_pos hserve]

/-- A reply is read to its end and taken apart. -/
theorem readReply_of_wire (hswapped : client.swapped = config.swapped) {answer : Answer}
    (hlt : answer.bodyLength config.pulseWidth < 65536) (h : l.toClient = [])
    (hserve : l.serve.toClient = answer.wire config) :
    client.readReply answer.kind l =
      (.ok ((answer.body config.pulseWidth).flatMap (Field.wire config.swapped)),
        { l.serve with toClient := [] }) := by
  have hpos : 0 < Packet.headLength := by decide
  have hwire : answer.wire config = client.head answer.kind (answer.bodyLength config.pulseWidth) ++
      (answer.body config.pulseWidth).flatMap (Field.wire config.swapped) := by
    rw [answer.wire_eq, head, hswapped, Field.u16, Layout.wire_word]
    rfl
  have hhead := client.length_head answer.kind (answer.bodyLength config.pulseWidth)
  have hlength := answer.length_wire config
  rw [hwire, List.length_append, hhead, Nat.add_left_cancel_iff] at hlength
  have hne : l.serve.toClient ≠ [] := by
    rw [hserve]
    exact answer.wire_ne_nil config
  have hle : Packet.headLength ≤ l.serve.toClient.length := by
    rw [hserve, hwire, List.length_append, hhead]
    exact Nat.le_add_right _ _
  have hread := Loopback.readBlock_of_nil h hpos
  rw [if_neg hne, Loopback.readBlock_of_le hle, hserve, hwire, List.take_left' hhead,
    List.drop_left' hhead] at hread
  rw [readReply_of_head (Nat.le_of_lt_succ hlt) hread, Loopback.readBlock_of_length_eq hlength rfl]

theorem exchange_eq (h : 0 < l.writeMax) (request : List UInt8) (kind : Packet.Kind) :
    client.exchange (.ok request) kind l =
      client.readReply kind (l.posted request) := by
  rw [exchange, Loopback.writeAll_eq h]

end Client

end Infrared
