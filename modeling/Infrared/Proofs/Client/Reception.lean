import Infrared.Proofs.Bench.Script
import Infrared.Proofs.Client.Wire

namespace Infrared.Client

open Bench

variable {client : Client} {kind : Packet.Kind} {bytes body rest : List UInt8} {s : Script}

/-- Whether bytes are a packet with a given body and what follows it. -/
structure Brings (client : Client) (kind : Packet.Kind) (bytes body rest : List UInt8) : Prop where
  length_le : body.length ≤ Packet.lengthLimit
  bytes_eq : bytes = client.head kind body.length ++ (body ++ rest)

/-- Whether bytes begin with a head of another type. -/
def Differs (kind : Packet.Kind) (bytes : List UInt8) : Prop :=
  Packet.headLength ≤ bytes.length ∧ bytes.head? ≠ some kind.code

/-- Whether bytes are too few for a head, or for the body of a packet whose head they begin with. -/
def Incomplete (client : Client) (kind : Packet.Kind) (bytes : List UInt8) : Prop :=
  bytes.length < Packet.headLength ∨
    ∃ length part, length ≤ Packet.lengthLimit ∧ part.length < length ∧
      bytes = client.head kind length ++ part

/-- What arrives is a whole packet, another packet or too little. -/
theorem brings_or_differs_or_incomplete (client : Client) (kind : Packet.Kind) (bytes : List UInt8) :
    (∃ body rest, client.Brings kind bytes body rest) ∨ Differs kind bytes ∨
      client.Incomplete kind bytes := by
  match bytes with
  | [] | [_] | [_, _] => exact .inr (.inr (.inl (by simp [Packet.headLength])))
  | code :: low :: high :: tail =>
      by_cases hcode : code = kind.code
      · subst hcode
        have hhead := client.head_wordValue kind low high
        have hlimit : client.wordValue [low, high] ≤ Packet.lengthLimit :=
          Nat.le_of_lt_succ (client.wordValue_lt [low, high])
        rcases Nat.lt_or_ge tail.length (client.wordValue [low, high]) with hshort | hlong
        · exact .inr (.inr (.inr ⟨_, tail, hlimit, hshort, by rw [hhead]; rfl⟩))
        · have hlength := List.length_take_of_le hlong
          refine .inl ⟨tail.take _, tail.drop (client.wordValue [low, high]), Nat.le_trans (Nat.le_of_eq hlength) hlimit, ?_⟩
          rw [hlength, hhead, List.take_append_drop]
          rfl
      · exact .inr (.inl ⟨by simp [Packet.headLength], by simpa using hcode⟩)

theorem exists_readReply_of_brings (h : client.Brings kind s.arrival.bytes body rest) :
    ∃ chunks, client.readReply kind s = (.ok body, { s with reads := chunks }) ∧
      Arrival.ofChunks chunks = { s.arrival with bytes := rest } := by
  have hlength := client.length_head kind body.length
  have hhead : Packet.headLength ≤ s.arrival.bytes.length := by
    rw [h.bytes_eq, List.length_append, hlength]
    exact Nat.le_add_right _ _
  obtain ⟨first, hfirst, harrival⟩ := Script.exists_readBlock_of_le hhead
  rw [h.bytes_eq, List.take_left' hlength] at hfirst
  rw [Arrival.drop, h.bytes_eq, List.drop_left' hlength] at harrival
  have hbytes : ({ s with reads := first } : Script).arrival =
      { s.arrival with bytes := body ++ rest } := harrival
  have hbody : body.length ≤ ({ s with reads := first } : Script).arrival.bytes.length := by
    rw [hbytes, List.length_append]
    exact Nat.le_add_right _ _
  obtain ⟨second, hsecond, hrest⟩ := Script.exists_readBlock_of_le hbody
  rw [hbytes, List.take_left] at hsecond
  rw [hbytes, Arrival.drop, List.drop_left] at hrest
  refine ⟨second, ?_, hrest⟩
  rw [readReply_of_head h.length_le hfirst, hsecond]

theorem exists_readReply_of_differs (h : Differs kind s.arrival.bytes) :
    ∃ chunks, client.readReply kind s = (.error .unexpectedResponse, { s with reads := chunks }) ∧
      Arrival.ofChunks chunks = s.arrival.drop Packet.headLength := by
  obtain ⟨chunks, hread, hchunks⟩ := Script.exists_readBlock_of_le h.1
  refine ⟨chunks, ?_, hchunks⟩
  have hcode : (s.arrival.bytes.take Packet.headLength).take 1 ≠ [kind.code] := by
    rw [List.take_take]
    intro htake
    have hhead := h.2
    cases hbytes : s.arrival.bytes with
    | nil => simp [hbytes] at htake
    | cons code tail =>
        rw [hbytes] at htake hhead
        simp [Packet.headLength] at htake hhead
        exact hhead htake
  exact readReply_of_take_ne hread hcode

theorem readReply_of_incomplete (h : client.Incomplete kind s.arrival.bytes) :
    (client.readReply kind s).1 = .error s.arrival.ending := by
  rcases h with hshort | ⟨length, part, hlimit, hpart, hbytes⟩
  · rw [readReply, Script.readBlock_of_lt hshort]
  · have hlength := client.length_head kind length
    have hhead : Packet.headLength ≤ s.arrival.bytes.length := by
      rw [hbytes, List.length_append, hlength]
      exact Nat.le_add_right _ _
    obtain ⟨first, hfirst, harrival⟩ := Script.exists_readBlock_of_le hhead
    rw [hbytes, List.take_left' hlength] at hfirst
    rw [Arrival.drop, hbytes, List.drop_left' hlength] at harrival
    have hrest : ({ s with reads := first } : Script).arrival = { s.arrival with bytes := part } :=
      harrival
    rw [readReply_of_head hlimit hfirst, Script.readBlock_of_lt (by rw [hrest]; exact hpart), hrest]

/-- Whether the link takes a request for a signal. -/
def Accepted (client : Client) (s : Script) : Prop :=
  (Link.writeAll (client.head .receiveRequest 0) s).1 = .ok ()

theorem exists_receive_eq (h : client.Accepted s) :
    ∃ t : Script, t.arrival = s.arrival ∧
      client.receive s = ((client.readReply .receiveResponse t).1.bind client.signalOf,
        (client.readReply .receiveResponse t).2) := by
  refine ⟨(Link.writeAll (client.head .receiveRequest 0) s).2, ?_, ?_⟩
  · rw [Script.arrival, Script.reads_writeAll]
    rfl
  · have hwrite : Link.writeAll (client.head .receiveRequest 0) s =
        (.ok (), (Link.writeAll (client.head .receiveRequest 0) s).2) := Prod.ext h rfl
    rw [receive, receiveRequest_eq_head, exchange, hwrite]

theorem receive_of_brings (h : client.Accepted s)
    (hbrings : client.Brings .receiveResponse s.arrival.bytes body rest) :
    (client.receive s).1 = client.signalOf body ∧
      (client.receive s).2.arrival = { s.arrival with bytes := rest } := by
  obtain ⟨t, harrival, hreceive⟩ := exists_receive_eq h
  rw [← harrival] at hbrings
  obtain ⟨chunks, hreply, hchunks⟩ := exists_readReply_of_brings hbrings
  rw [hreceive, hreply, ← harrival]
  exact ⟨rfl, hchunks⟩

theorem receive_of_differs (h : client.Accepted s)
    (hdiffers : Differs .receiveResponse s.arrival.bytes) :
    (client.receive s).1 = .error .unexpectedResponse ∧
      (client.receive s).2.arrival = s.arrival.drop Packet.headLength := by
  obtain ⟨t, harrival, hreceive⟩ := exists_receive_eq h
  rw [← harrival] at hdiffers
  obtain ⟨chunks, hreply, hchunks⟩ := client.exists_readReply_of_differs hdiffers
  rw [hreceive, hreply, ← harrival]
  exact ⟨rfl, hchunks⟩

theorem receive_of_incomplete (h : client.Accepted s)
    (hincomplete : client.Incomplete .receiveResponse s.arrival.bytes) :
    (client.receive s).1 = .error s.arrival.ending := by
  obtain ⟨t, harrival, hreceive⟩ := exists_receive_eq h
  rw [← harrival] at hincomplete
  rw [hreceive, readReply_of_incomplete hincomplete, harrival]
  rfl

theorem receive_eq_ok_iff (h : client.Accepted s) {signal : Signal} :
    (client.receive s).1 = .ok signal ↔ signal.Fits client ∧
      ∃ rest, client.Brings .receiveResponse s.arrival.bytes (signal.wire client) rest := by
  constructor
  · intro hok
    rcases client.brings_or_differs_or_incomplete .receiveResponse s.arrival.bytes with
      ⟨body, rest, hbrings⟩ | hdiffers | hincomplete
    · rw [(receive_of_brings h hbrings).1, signalOf_eq_ok_iff] at hok
      obtain ⟨hfits, rfl⟩ := hok
      exact ⟨hfits, rest, hbrings⟩
    · simp [(receive_of_differs h hdiffers).1] at hok
    · simp [receive_of_incomplete h hincomplete] at hok
  · rintro ⟨hfits, rest, hbrings⟩
    rw [(receive_of_brings h hbrings).1, signalOf_wire hfits]

theorem receive_eq_error_iff (h : client.Accepted s) {fault : Fault} :
    (client.receive s).1 = .error fault ↔
      fault = .lengthMismatch ∧ (∃ body rest,
        client.Brings .receiveResponse s.arrival.bytes body rest ∧ ¬client.Consistent body) ∨
      fault = .unexpectedResponse ∧ Differs .receiveResponse s.arrival.bytes ∨
      fault = s.arrival.ending ∧ client.Incomplete .receiveResponse s.arrival.bytes := by
  constructor
  · intro herror
    rcases client.brings_or_differs_or_incomplete .receiveResponse s.arrival.bytes with
      ⟨body, rest, hbrings⟩ | hdiffers | hincomplete
    · rw [(receive_of_brings h hbrings).1, signalOf_eq_error_iff] at herror
      exact .inl ⟨herror.1, body, rest, hbrings, herror.2⟩
    · rw [(receive_of_differs h hdiffers).1, Except.error.injEq] at herror
      exact .inr (.inl ⟨herror.symm, hdiffers⟩)
    · rw [receive_of_incomplete h hincomplete, Except.error.injEq] at herror
      exact .inr (.inr ⟨herror.symm, hincomplete⟩)
  · rintro (⟨rfl, body, rest, hbrings, hnot⟩ | ⟨rfl, hdiffers⟩ | ⟨rfl, hincomplete⟩)
    · rw [(receive_of_brings h hbrings).1, signalOf_of_not_consistent hnot]
    · exact (receive_of_differs h hdiffers).1
    · exact receive_of_incomplete h hincomplete

/-- What is returned is told by the bytes that arrive before the link ends, and by how it ends. -/
theorem receive_eq_of_arrival_eq {t : Script} (hs : client.Accepted s) (ht : client.Accepted t)
    (hbytes : s.arrival.bytes = t.arrival.bytes) (hending : s.arrival.ending = t.arrival.ending) :
    (client.receive s).1 = (client.receive t).1 := by
  rcases client.brings_or_differs_or_incomplete .receiveResponse s.arrival.bytes with
    ⟨body, rest, hbrings⟩ | hdiffers | hincomplete
  · rw [(receive_of_brings hs hbrings).1, (receive_of_brings ht (hbytes ▸ hbrings)).1]
  · rw [(receive_of_differs hs hdiffers).1, (receive_of_differs ht (hbytes ▸ hdiffers)).1]
  · rw [receive_of_incomplete hs hincomplete, receive_of_incomplete ht (hbytes ▸ hincomplete),
      hending]

/-- What a client makes of what arrives in reply to a request for a signal, and what it leaves. -/
structure Understood (client : Client) (arrival : Arrival) (result : Except Fault Signal)
    (left : Arrival) : Prop where
  /-- A signal is returned for a whole packet whose body has the length of its count. -/
  exists_ok_iff : (∃ signal, result = .ok signal) ↔
    ∃ body rest, client.Brings .receiveResponse arrival.bytes body rest ∧ client.Consistent body
  /-- The signal is the one that the body states. -/
  ok_iff : ∀ signal, result = .ok signal ↔ signal.Fits client ∧
    ∃ rest, client.Brings .receiveResponse arrival.bytes (signal.wire client) rest
  left_of_brings : ∀ body rest, client.Brings .receiveResponse arrival.bytes body rest →
    left = { arrival with bytes := rest }
  lengthMismatch_iff : result = .error .lengthMismatch ↔
    ∃ body rest, client.Brings .receiveResponse arrival.bytes body rest ∧ ¬client.Consistent body
  unexpectedResponse_iff : result = .error .unexpectedResponse ↔
    Differs .receiveResponse arrival.bytes
  left_of_differs : Differs .receiveResponse arrival.bytes → left = arrival.drop Packet.headLength
  disconnected_iff : result = .error .disconnected ↔
    arrival.ending = .disconnected ∧ client.Incomplete .receiveResponse arrival.bytes
  io_iff : result = .error .io ↔
    arrival.ending = .io ∧ client.Incomplete .receiveResponse arrival.bytes

theorem exists_receive_eq_ok_iff (h : client.Accepted s) :
    (∃ signal, (client.receive s).1 = .ok signal) ↔
      ∃ body rest, client.Brings .receiveResponse s.arrival.bytes body rest ∧
        client.Consistent body := by
  constructor
  · rintro ⟨signal, hok⟩
    obtain ⟨hfits, rest, hbrings⟩ := (receive_eq_ok_iff h).mp hok
    exact ⟨_, rest, hbrings, consistent_iff_exists_wire.mpr ⟨signal, hfits, rfl⟩⟩
  · rintro ⟨body, rest, hbrings, hconsistent⟩
    obtain ⟨signal, hfits, rfl⟩ := consistent_iff_exists_wire.mp hconsistent
    exact ⟨signal, (receive_eq_ok_iff h).mpr ⟨hfits, rest, hbrings⟩⟩

/-- A client that made its request understands whatever arrives, however it is cut into chunks. -/
theorem receive_scripted (client : Client) (s : Script) (haccepted : client.Accepted s) :
    client.Understood s.arrival (client.receive s).1 (client.receive s).2.arrival ∧
      ∀ t : Script, client.Accepted t → t.arrival.bytes = s.arrival.bytes →
        t.arrival.ending = s.arrival.ending → (client.receive t).1 = (client.receive s).1 := by
  have hending : s.arrival.ending = .disconnected ∨ s.arrival.ending = .io :=
    Arrival.ending_ofChunks s.reads
  refine ⟨?_, fun t ht hbytes hsame => receive_eq_of_arrival_eq ht haccepted hbytes hsame⟩
  constructor
  case exists_ok_iff => exact exists_receive_eq_ok_iff haccepted
  case ok_iff => exact fun signal => receive_eq_ok_iff haccepted
  case left_of_brings => exact fun body rest hbrings => (receive_of_brings haccepted hbrings).2
  case left_of_differs => exact fun hdiffers => (receive_of_differs haccepted hdiffers).2
  case lengthMismatch_iff =>
    rw [receive_eq_error_iff haccepted]
    rcases hending with hclosed | hfailed
    · simp [hclosed]
    · simp [hfailed]
  case unexpectedResponse_iff =>
    rw [receive_eq_error_iff haccepted]
    rcases hending with hclosed | hfailed
    · simp [hclosed]
    · simp [hfailed]
  case disconnected_iff => simp [receive_eq_error_iff haccepted, eq_comm]
  case io_iff => simp [receive_eq_error_iff haccepted, eq_comm]

/-- Two pulses that come in five chunks, the last one with a byte too many, before the link fails. -/
theorem receive_scripted_chunks :
    let client : Client := {}
    let s : Script := {
      reads := [some [3, 0], some [10, 0, 0, 0, 0], some [0], some [2, 3, 132], some [1, 194, 9], none]
      writes := [some 1, some 2] }
    client.Accepted s ∧ (client.receive s).1 = .ok ⟨0, [900, 450]⟩ ∧
      (client.receive s).2.arrival.bytes = [9] := by
  intro client s
  have haccepted : client.Accepted s := by
    rw [Accepted]
    cbv
  have hunderstood := (receive_scripted client s haccepted).1
  have hpulses : ∀ pulse ∈ [900, 450], pulse ≤ client.pulseWidth.longest :=
    List.forall_mem_cons.mpr ⟨by decide, List.forall_mem_singleton.mpr (by decide)⟩
  have hfits : Signal.Fits client ⟨0, [900, 450]⟩ := ⟨by decide, hpulses⟩
  have hbrings : client.Brings .receiveResponse s.arrival.bytes
      (Signal.wire client ⟨0, [900, 450]⟩) [9] :=
    ⟨by decide +kernel, by decide +kernel⟩
  refine ⟨haccepted, (hunderstood.ok_iff _).mpr ⟨hfits, [9], hbrings⟩, ?_⟩
  rw [hunderstood.left_of_brings _ _ hbrings]

end Infrared.Client
