import Infrared.Bench.Script
import Infrared.Proofs.Client.Encoding
import Infrared.Proofs.Link

namespace Infrared

open Link (Watched)

/-- The type of the reply to a request. -/
def Request.Content.answerKind : Request.Content → Packet.Kind
  | .send _ _ => .sendResponse
  | .receive => .receiveResponse
  | .config _ _ _ => .configResponse

namespace Client

variable {σ τ : Type} [Link σ] [Link τ] {client : Client} {content other : Request.Content} {s : σ}

/-- Asks for something, and tells only whether it was done. -/
def ask (client : Client) (content : Request.Content) (s : σ) : Except Fault Unit × σ :=
  match content with
  | .send frequency pulses => client.send frequency pulses s
  | .receive => ((client.receive s).1.map fun _ => (), (client.receive s).2)
  | .config name ssid password => client.configure name ssid password s

/-- What the body of the reply to a request says. -/
def check (client : Client) : Request.Content → List UInt8 → Except Fault Unit
  | .send _ _ => expectEmpty
  | .receive => fun body => (client.signalOf body).map fun _ => ()
  | .config _ _ _ => expectEmpty

theorem ask_eq_exchange (client : Client) (content : Request.Content) (s : σ) :
    client.ask content s =
      ((client.exchange (client.encode content) content.answerKind s).1.bind (client.check content),
        (client.exchange (client.encode content) content.answerKind s).2) := by
  cases content with
  | send frequency pulses => rfl
  | receive =>
      rw [ask, receive, encode, Request.Content.answerKind]
      obtain ⟨result, t⟩ := client.exchange client.receiveRequest .receiveResponse s
      cases result with
      | ok body =>
          change (Except.map _ (client.signalOf body), t) = (client.check .receive body, t)
          rfl
      | error fault => rfl
  | config name ssid password => rfl

/-- A request that a packet cannot hold does nothing. -/
theorem ask_of_not_portable (h : ¬content.Portable client.pulseWidth) (s : σ) :
    client.ask content s = (.error .payloadTooLarge, s) := by
  rw [ask_eq_exchange, encode_of_not_portable h]
  rfl

/-- What a link or a reply says against a request that was written. -/
def Answered (fault : Fault) : Prop :=
  Link.Breaks fault ∨ fault = .unexpectedResponse ∨ fault = .lengthMismatch

theorem lengthMismatch_of_check {body : List UInt8} {fault : Fault}
    (h : client.check content body = .error fault) : fault = .lengthMismatch := by
  have hempty {body : List UInt8} (h : expectEmpty body = .error fault) : fault = .lengthMismatch := by
    rw [expectEmpty] at h
    split at h
    · simp at h
    · exact (Except.error.inj h).symm
  cases content with
  | send frequency pulses => exact hempty h
  | receive =>
      change (client.signalOf body).map (fun _ => ()) = .error fault at h
      cases hsignal : client.signalOf body with
      | ok signal => simp [hsignal, Except.map] at h
      | error cause =>
          rw [hsignal] at h
          rw [← Except.error.inj h]
          exact (signalOf_eq_error_iff.mp hsignal).1
  | config name ssid password => exact hempty h

theorem answered_of_readReply {kind : Packet.Kind} {fault : Fault}
    (h : (client.readReply kind s).1 = .error fault) : Answered fault := by
  rw [readReply] at h
  split at h
  · split at h
    · exact .inl (Link.breaks_of_readBlock h)
    · exact .inr (.inl (Except.error.inj h).symm)
  · rename_i heq
    exact .inl (Link.breaks_of_readBlock ((congrArg (·.1) heq).trans h))

theorem answered_of_exchange (hportable : content.Portable client.pulseWidth) {kind : Packet.Kind}
    {fault : Fault} (h : (client.exchange (client.encode content) kind s).1 = .error fault) :
    Answered fault := by
  rw [encode_of_portable hportable, exchange] at h
  split at h
  · exact answered_of_readReply h
  · rename_i heq
    rw [← Except.error.inj h]
    exact .inl (Link.breaks_of_writeAll (congrArg (·.1) heq))

theorem answered_of_ask (hportable : content.Portable client.pulseWidth) {fault : Fault}
    (h : (client.ask content s).1 = .error fault) : Answered fault := by
  rw [ask_eq_exchange] at h
  cases hbody : (client.exchange (client.encode content) content.answerKind s).1 with
  | ok body =>
      rw [hbody] at h
      exact .inr (.inr (lengthMismatch_of_check h))
  | error cause =>
      rw [hbody] at h
      rw [← Except.error.inj h]
      exact answered_of_exchange hportable hbody

theorem not_answered_payloadTooLarge : ¬Answered .payloadTooLarge := by
  simp [Answered, Link.Breaks]

theorem not_answered_bufferTooSmall : ¬Answered .bufferTooSmall := by
  simp [Answered, Link.Breaks]

theorem ask_eq_payloadTooLarge_iff (client : Client) (content : Request.Content) (s : σ) :
    (client.ask content s).1 = .error .payloadTooLarge ↔ ¬content.Portable client.pulseWidth := by
  constructor
  · exact fun h hportable => not_answered_payloadTooLarge (answered_of_ask hportable h)
  · intro h
    rw [ask_of_not_portable h]

theorem ask_ne_bufferTooSmall (client : Client) (content : Request.Content) (s : σ) :
    (client.ask content s).1 ≠ .error .bufferTooSmall := by
  intro h
  by_cases hportable : content.Portable client.pulseWidth
  · exact not_answered_bufferTooSmall (answered_of_ask hportable h)
  · rw [ask_of_not_portable hportable] at h
    simp at h

theorem readReply_of_works {f : τ → σ} (h : Link.Works f) (kind : Packet.Kind) (s : τ) :
    client.readReply kind (f s) = ((client.readReply kind s).1, f (client.readReply kind s).2) := by
  rw [readReply, readReply, h.readBlock_eq]
  obtain ⟨result, t⟩ := Link.readBlock Packet.headLength s
  cases result with
  | ok head =>
      dsimp only
      split
      · exact h.readBlock_eq _ t
      · rfl
  | error fault => rfl

theorem exchange_of_works {f : τ → σ} (h : Link.Works f) (request : Except Fault (List UInt8))
    (kind : Packet.Kind) (s : τ) :
    client.exchange request kind (f s) =
      ((client.exchange request kind s).1, f (client.exchange request kind s).2) := by
  cases request with
  | ok data =>
      rw [exchange, exchange, h.writeAll_eq]
      obtain ⟨result, t⟩ := Link.writeAll data s
      cases result with
      | ok _ => exact readReply_of_works h kind t
      | error fault => rfl
  | error fault => rfl

/-- Watching a link changes nothing. -/
theorem ask_watched (client : Client) (content : Request.Content) (w : Watched σ) :
    client.ask content w.link = ((client.ask content w).1, (client.ask content w).2.link) := by
  rw [ask_eq_exchange, ask_eq_exchange, exchange_of_works Watched.works]

theorem offered_readReply (kind : Packet.Kind) (w : Watched σ) :
    (client.readReply kind w).2.offered = w.offered := by
  have hhead := Watched.offered_readBlock Packet.headLength w
  rw [readReply]
  split
  · rename_i heq
    rw [heq] at hhead
    split
    · exact (Watched.offered_readBlock _ _).trans hhead
    · exact hhead
  · rename_i heq
    rwa [heq] at hhead

theorem exists_offered_ask (h : content.Portable client.pulseWidth) (w : Watched σ) :
    ∃ blocks, (client.ask content w).2.offered =
        w.offered ++ content.wire client.settings :: blocks ∧
      ∀ block ∈ blocks, block <:+ content.wire client.settings := by
  have hne : content.wire client.settings ≠ [] := by
    rw [Request.Content.wire_eq]
    simp
  obtain ⟨blocks, hoffered, hblocks⟩ := Watched.exists_offered_writeAll hne w
  refine ⟨blocks, ?_, hblocks⟩
  rw [ask_eq_exchange, encode_of_portable h, exchange]
  dsimp only
  split
  · rename_i heq
    rw [heq] at hoffered
    rw [offered_readReply]
    exact hoffered
  · rename_i heq
    rw [heq] at hoffered
    exact hoffered

/-- Whether the bytes of a request fill its packet, are laid out as they should be, and tell the request. -/
structure Exact (client : Client) (content : Request.Content) (data : List UInt8) : Prop where
  fills : ∃ out, (FieldStream.writer (Packet.headLength + content.bodyLength client.pulseWidth)
    client.swapped).putAll (content.fields client.pulseWidth) = .ok out ∧ out.left = 0 ∧ out.data = data
  encode_eq : client.encode content = .ok data
  wire_eq : data = (content.saturated client.pulseWidth).wire client.settings
  tells : ∀ other, client.encode other = .ok data →
    other.saturated client.pulseWidth = content.saturated client.pulseWidth

theorem portable_of_encode_eq {data : List UInt8} (h : client.encode content = .ok data) :
    content.Portable client.pulseWidth := by
  refine Classical.byContradiction fun hnot => ?_
  rw [encode_of_not_portable hnot] at h
  simp at h

theorem exact_of_portable (h : content.Portable client.pulseWidth) :
    client.Exact content (content.wire client.settings) := by
  obtain ⟨out, hput, hleft, hdata⟩ := Request.Content.exists_putAll_fields h client.swapped
  have hwire := Request.Content.wire_eq_flatMap client.settings content
  refine ⟨⟨out, hput, hleft, hdata.trans hwire.symm⟩, encode_of_portable h,
    (Request.Content.wire_saturated client.settings content).symm, ?_⟩
  intro other hother
  have hportable := portable_of_encode_eq hother
  rw [encode_of_portable hportable, Except.ok.injEq] at hother
  exact Request.Content.saturated_eq_of_wire_eq hportable h hother

/-- A request is refused before it is written exactly if a packet cannot hold it, and then the link is left alone.
Every other request is written as bytes that tell it. -/
theorem ask_exact (client : Client) (content : Request.Content) (s : σ) :
    ((client.ask content s).1 = .error .payloadTooLarge ↔ ¬content.Portable client.pulseWidth) ∧
      (client.ask content s).1 ≠ .error .bufferTooSmall ∧
      (¬content.Portable client.pulseWidth → (client.ask content s).2 = s) ∧
      (content.Portable client.pulseWidth → ∃ data blocks, client.Exact content data ∧
        client.ask content (⟨s, []⟩ : Watched σ) =
          ((client.ask content s).1, ⟨(client.ask content s).2, data :: blocks⟩) ∧
        ∀ block ∈ blocks, block <:+ data) := by
  refine ⟨ask_eq_payloadTooLarge_iff client content s, ask_ne_bufferTooSmall client content s, ?_, ?_⟩
  · intro h
    rw [ask_of_not_portable h]
  · intro h
    obtain ⟨blocks, hoffered, hblocks⟩ := exists_offered_ask h (⟨s, []⟩ : Watched σ)
    have hlink := ask_watched client content (⟨s, []⟩ : Watched σ)
    refine ⟨content.wire client.settings, blocks, exact_of_portable h, ?_, hblocks⟩
    rw [List.nil_append] at hoffered
    rw [hlink, ← hoffered]

/-- The first of two pulses is longer than the width can tell. -/
theorem ask_exact_saturated :
    let client : Client := {}
    let content : Request.Content := .send 38000 [70000, 450]
    content.Portable client.pulseWidth ∧
      client.Exact content [0, 0, 10, 0, 0, 148, 112, 0, 2, 255, 255, 1, 194] := by
  intro client content
  have hportable : content.Portable client.pulseWidth := by
    change Packet.pulsesHeadLength + 2 * 2 ≤ Packet.lengthLimit
    decide +kernel
  let s : Bench.Script := { reads := [], writes := [] }
  obtain ⟨-, -, -, hwritten⟩ := ask_exact client content s
  obtain ⟨data, -, hexact, -⟩ := hwritten hportable
  have hdata : data = [0, 0, 10, 0, 0, 148, 112, 0, 2, 255, 255, 1, 194] := by
    rw [hexact.wire_eq]
    decide +kernel
  exact ⟨hportable, hdata ▸ hexact⟩

end Client

end Infrared
