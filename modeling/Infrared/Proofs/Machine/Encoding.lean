import Infrared.Proofs.Machine.Decoding
import Infrared.Proofs.Session.Soundness

namespace Infrared

open Access (AllInRange allInRange_append allInRange_cons)

/-- What of the reply comes next. -/
inductive ResponseStep where
  | kind
  | length
  | body
  | done
  deriving DecidableEq, Repr

/-- Writes a field, and goes on once all of it was written. -/
def CheckedStream.afterWrite {σ : Type} (out : CheckedStream) (f : Field) (state : σ)
    (next : CheckedStream → Option (Except Fault Bool × σ × CheckedStream)) :
    Option (Except Fault Bool × σ × CheckedStream) := do
  let (result, out) ← out.write f
  match result with
  | .ok true => next out
  | .ok false => some (.ok false, state, out)
  | .error fault => some (.error fault, state, out)

namespace ReceiveExchange

def encodePulses (e : ReceiveExchange) (count : Nat) (width : PulseWidth) (scratch : Cells)
    (out : CheckedStream) : Option (Except Fault Bool × ReceiveExchange × CheckedStream) :=
  if e.written < count then do
    let filled ← scratch.filled
    let pulse ← Checked.slice filled (e.written * width.bytes) (e.written * width.bytes + width.bytes)
    out.afterWrite ⟨.fixed, pulse⟩ e fun out =>
      if e.written + 1 ≤ Packet.lengthLimit then
        encodePulses { e with written := e.written + 1 } count width scratch out
      else none
  else some (.ok true, e, out)
termination_by count - e.written

def encodeCount (e : ReceiveExchange) (count : Nat) (width : PulseWidth) (scratch : Cells)
    (out : CheckedStream) : Option (Except Fault Bool × ReceiveExchange × CheckedStream) :=
  out.afterWrite (.u16 count) e fun out => encodePulses { e with step := .pulses } count width scratch out

/-- The frequency is not measured. -/
def encodeFrequency (e : ReceiveExchange) (count : Nat) (width : PulseWidth) (scratch : Cells)
    (out : CheckedStream) : Option (Except Fault Bool × ReceiveExchange × CheckedStream) :=
  out.afterWrite (.u32 0) e fun out => encodeCount { e with step := .count } count width scratch out

def encode (e : ReceiveExchange) (width : PulseWidth) (scratch : Cells) (out : CheckedStream) :
    Option (Except Fault Bool × ReceiveExchange × CheckedStream) :=
  match e.report with
  | none => some (.error .noData, e, out)
  | some report =>
    match e.step with
    | .frequency => e.encodeFrequency report.count width scratch out
    | .count => e.encodeCount report.count width scratch out
    | .pulses => e.encodePulses report.count width scratch out

end ReceiveExchange

namespace Exchange

def kind : Exchange → Packet.Kind
  | send _ => .sendRequest
  | receive _ => .receiveRequest
  | config _ => .configRequest

def responseLength (e : Exchange) (width : PulseWidth) : Except Fault Nat :=
  match e with
  | receive e =>
    match e.report with
    | none => .error .noData
    | some report => Packet.pulsesBodyLength report.count width
  | _ => .ok 0

def encodeBody (e : Exchange) (width : PulseWidth) (scratch : Cells) (out : CheckedStream) :
    Option (Except Fault Bool × (Exchange × ResponseStep) × CheckedStream) :=
  match e with
  | receive e => do
    let (result, e, out) ← e.encode width scratch out
    match result with
    | .ok true => some (.ok true, (.receive e, .done), out)
    | result => some (result, (.receive e, .body), out)
  | e => some (.ok true, (e, .done), out)

def encodeLength (e : Exchange) (width : PulseWidth) (scratch : Cells) (out : CheckedStream) :
    Option (Except Fault Bool × (Exchange × ResponseStep) × CheckedStream) :=
  match e.responseLength width with
  | .ok length => out.afterWrite (.u16 length) (e, .length) (e.encodeBody width scratch)
  | .error fault => some (.error fault, (e, .length), out)

def encodeKind (e : Exchange) (kind : Packet.Kind) (width : PulseWidth) (scratch : Cells)
    (out : CheckedStream) : Option (Except Fault Bool × (Exchange × ResponseStep) × CheckedStream) :=
  out.afterWrite (.u8 kind.code.toNat) (e, .kind) (e.encodeLength width scratch)

/-- Writes as much of the reply as there is room for. -/
def encode (e : Exchange) (response : ResponseStep) (width : PulseWidth) (scratch : Cells)
    (out : CheckedStream) : Option (Except Fault Bool × (Exchange × ResponseStep) × CheckedStream) :=
  match e.kind.response? with
  | none => some (.error .invalidOperation, (e, response), out)
  | some kind =>
    match response with
    | .kind => e.encodeKind kind width scratch out
    | .length => e.encodeLength width scratch out
    | .body => e.encodeBody width scratch out
    | .done => some (.ok true, (e, .done), out)

end Exchange

/-- Whether the machine has a recording of which the pulses come next, or what stands before them. -/
structure ReceiveExchange.At (count : Nat) (e : ReceiveExchange) (next : Nat) : Prop where
  exists_report : ∃ report, e.report = some report ∧ report.count = count
  next_eq : next = match e.step with
    | .frequency => 2
    | .count => 3
    | .pulses => e.written + 4
  written_eq : e.step ≠ .pulses → e.written = 0

/-- Whether the machine is in the body of a reply, before the field with an index. -/
def Exchange.At (reply : Reply) (e : Exchange) (next : Nat) : Prop :=
  match e, reply with
  | send _, .sent => next = 2
  | receive e, .captured count => e.At count next
  | config e, .configured name ssid password =>
    e.name = name ∧ e.ssid = ssid ∧ e.password = password ∧ next = 2
  | _, _ => False

/-- Whether the machine is in a reply, before the field with an index. -/
def Exchange.Answers (reply : Reply) (state : Exchange × ResponseStep) (next : Nat) : Prop :=
  match state.2 with
  | .kind => next = 0 ∧ state.1.At reply 2
  | .length => next = 1 ∧ state.1.At reply 2
  | .body => state.1.At reply next
  | .done => reply.fieldCount ≤ next ∧ state.1.At reply next

/-- Whether an encoding goes through and comes to what a reply comes to. -/
def Encodes {σ : Type} (At : σ → Nat → Prop) (d : Option (Except Fault Bool × σ × CheckedStream))
    (r : Except Fault Bool × Nat × FieldStream) : Prop :=
  ∃ state c, d = some (r.1, state, c) ∧ c.Shows r.2.2 ∧ At state r.2.1

namespace Reply

variable {σ : Type} {At : σ → Nat → Prop} {reply : Reply} {width : PulseWidth} {scratch : Buffer}
  {next : Nat} {c : CheckedStream} {out : FieldStream} {f : Field}

theorem encodes_write {state : σ} {goOn : CheckedStream → Option (Except Fault Bool × σ × CheckedStream)}
    (hc : c.Shows out) (hat : At state next) (hnext : next < reply.fieldCount)
    (hfield : reply.field width scratch next = .ok f)
    (hin : AllInRange (reply.encodeAccesses width scratch next out))
    (hgo : ∀ c' out', c'.Shows out' → AllInRange (reply.encodeAccesses width scratch (next + 1) out') →
      Encodes At (goOn c') (reply.encode width scratch (next + 1) out')) :
    Encodes At (c.afterWrite f state goOn) (reply.encode width scratch next out) := by
  obtain ⟨c', hwrite, hc'⟩ := hc.write f
  rw [encodeAccesses, if_pos hnext, hfield, allInRange_append] at hin
  obtain ⟨-, hin⟩ := hin
  rw [CheckedStream.afterWrite, hwrite, encode, if_pos hnext, hfield, Option.bind_eq_bind, Option.bind_some]
  dsimp only at hin ⊢
  rw [allInRange_append] at hin
  cases hmoved : out.write f with
  | mk result out' =>
      rw [hmoved] at hc' hin
      cases result with
      | error fault => exact ⟨_, _, rfl, hc', hat⟩
      | ok complete =>
          cases complete with
          | false => exact ⟨_, _, rfl, hc', hat⟩
          | true => exact hgo c' out' hc' hin.2

theorem encode_of_le (h : reply.fieldCount ≤ next) :
    reply.encode width scratch next out = (.ok true, next, out) := by
  rw [encode, if_neg (Nat.not_lt.mpr h)]

theorem fieldCount_le_of_encode {last : Nat} {out' : FieldStream}
    (h : reply.encode width scratch next out = (.ok true, last, out')) : reply.fieldCount ≤ last := by
  induction hn : reply.fieldCount - next generalizing next out with
  | zero =>
      rw [encode_of_le (by omega)] at h
      simp only [Prod.mk.injEq, true_and] at h
      omega
  | succ n ih =>
      rw [encode, if_pos (by omega)] at h
      split at h
      · split at h
        · exact ih h (by omega)
        · simp at h
        · simp at h
      · simp at h

end Reply

namespace ReceiveExchange

variable {e : ReceiveExchange} {count next : Nat} {width : PulseWidth} {scratch : Buffer}
  {c : CheckedStream} {out : FieldStream}

theorem encodes_pulses (hc : c.Shows out) (he : e.At count (e.written + 4)) (hstep : e.step = .pulses)
    (hin : AllInRange ((Reply.captured count).encodeAccesses width scratch (e.written + 4) out)) :
    Encodes (ReceiveExchange.At count) (e.encodePulses count width scratch.cells c)
      ((Reply.captured count).encode width scratch (e.written + 4) out) := by
  induction hn : count - e.written generalizing e c out with
  | zero =>
      rw [encodePulses, if_neg (by omega), Reply.encode_of_le (by simp only [Reply.fieldCount]; omega)]
      exact ⟨_, _, rfl, hc, he⟩
  | succ n ih =>
      have hlt : e.written < count := by omega
      have hnext : e.written + 4 < (Reply.captured count).fieldCount := by
        simp only [Reply.fieldCount]
        omega
      have hfield : AllInRange ((Reply.captured count).fieldAccesses width scratch (e.written + 4)) := by
        rw [Reply.encodeAccesses, if_pos hnext, allInRange_append] at hin
        exact hin.1
      obtain ⟨hslice, hcount⟩ := allInRange_cons.mp hfield
      have hcount := (allInRange_cons.mp hcount).1
      simp only [Access.InRange] at hslice hcount
      have hfilled : e.written * width.bytes + width.bytes ≤ scratch.filled.length := by
        rw [Buffer.length_filled]
        exact hslice
      have hpulse : scratch.slice? (e.written * width.bytes) width.bytes =
          some ((scratch.filled.drop (e.written * width.bytes)).take width.bytes) :=
        (scratch.slice?_eq_some_iff _ _ _).mpr ⟨hslice, rfl⟩
      have hf : (Reply.captured count).field width scratch (e.written + 4) =
          .ok ⟨.fixed, (scratch.filled.drop (e.written * width.bytes)).take width.bytes⟩ := by
        simp only [Reply.field, Nat.add_sub_cancel, hpulse]
      rw [encodePulses, if_pos hlt]
      simp only [Buffer.filled_cells, Checked.slice_of_le _ (Nat.le_add_right _ _) hfilled,
        Nat.add_sub_cancel_left, Option.bind_eq_bind, Option.bind_some]
      refine Reply.encodes_write hc he hnext hf hin fun c' out' hc' hin => ?_
      rw [if_pos hcount]
      have hat : At count { e with written := e.written + 1 } (e.written + 1 + 4) :=
        ⟨he.exists_report, by rw [hstep], fun h => absurd hstep h⟩
      exact ih hc' hat hstep (by rwa [Nat.add_right_comm] at hin) (by dsimp only; omega)

theorem encodes_count (hc : c.Shows out) (he : e.At count 3) (hstep : e.step = .count)
    (hin : AllInRange ((Reply.captured count).encodeAccesses width scratch 3 out)) :
    Encodes (ReceiveExchange.At count) (e.encodeCount count width scratch.cells c)
      ((Reply.captured count).encode width scratch 3 out) := by
  have hwritten : e.written = 0 := he.written_eq (by rw [hstep]; decide)
  have hat : ReceiveExchange.At count { e with step := .pulses } (e.written + 4) :=
    ⟨he.exists_report, rfl, fun h => absurd rfl h⟩
  refine Reply.encodes_write hc he (by simp only [Reply.fieldCount]; omega) rfl hin
    fun c' out' hc' hin => ?_
  rw [show 3 + 1 = e.written + 4 by omega] at hin ⊢
  exact encodes_pulses hc' hat rfl hin

theorem encodes_frequency (hc : c.Shows out) (he : e.At count 2) (hstep : e.step = .frequency)
    (hin : AllInRange ((Reply.captured count).encodeAccesses width scratch 2 out)) :
    Encodes (ReceiveExchange.At count) (e.encodeFrequency count width scratch.cells c)
      ((Reply.captured count).encode width scratch 2 out) := by
  have hwritten : e.written = 0 := he.written_eq (by rw [hstep]; decide)
  refine Reply.encodes_write hc he (by simp only [Reply.fieldCount]; omega) rfl hin
    fun c' out' hc' hin => ?_
  exact encodes_count hc' ⟨he.exists_report, rfl, fun _ => hwritten⟩ rfl hin

theorem encodes (hc : c.Shows out) (he : e.At count next)
    (hin : AllInRange ((Reply.captured count).encodeAccesses width scratch next out)) :
    Encodes (ReceiveExchange.At count) (e.encode width scratch.cells c)
      ((Reply.captured count).encode width scratch next out) := by
  obtain ⟨report, hreport, rfl⟩ := he.exists_report
  have hnext := he.next_eq
  simp only [encode, hreport]
  cases hstep : e.step with
  | frequency =>
      rw [hstep] at hnext
      subst hnext
      exact encodes_frequency hc he hstep hin
  | count =>
      rw [hstep] at hnext
      subst hnext
      exact encodes_count hc he hstep hin
  | pulses =>
      rw [hstep] at hnext
      subst hnext
      exact encodes_pulses hc he hstep hin

end ReceiveExchange

namespace Exchange

variable {e : Exchange} {reply : Reply} {next : Nat} {width : PulseWidth} {scratch : Buffer}
  {c : CheckedStream} {out : FieldStream} {response : ResponseStep}

theorem At.response?_eq (h : e.At reply next) : e.kind.response? = some reply.kind := by
  cases e <;> cases reply <;> first | rfl | exact h.elim

theorem At.responseLength_eq (h : e.At reply next) (width : PulseWidth) :
    e.responseLength width = reply.bodyLength width := by
  cases e with
  | receive e =>
      cases reply with
      | captured count =>
          obtain ⟨report, hreport, rfl⟩ := ReceiveExchange.At.exists_report h
          simp only [responseLength, hreport, Reply.bodyLength]
      | _ => exact h.elim
  | _ => cases reply <;> first | rfl | exact h.elim

theorem encodes_body (hc : c.Shows out) (he : e.At reply next)
    (hin : AllInRange (reply.encodeAccesses width scratch next out)) :
    Encodes (Answers reply) (e.encodeBody width scratch.cells c) (reply.encode width scratch next out) := by
  cases e with
  | send e =>
      cases reply with
      | sent =>
          have hle : Reply.sent.fieldCount ≤ next := Nat.le_of_eq he.symm
          rw [Reply.encode_of_le hle]
          exact ⟨_, _, rfl, hc, hle, he⟩
      | _ => exact he.elim
  | config e =>
      cases reply with
      | configured name ssid password =>
          have hle : (Reply.configured name ssid password).fieldCount ≤ next := Nat.le_of_eq he.2.2.2.symm
          rw [Reply.encode_of_le hle]
          exact ⟨_, _, rfl, hc, hle, he⟩
      | _ => exact he.elim
  | receive e =>
      cases reply with
      | captured count =>
          obtain ⟨e', c', hencode, hc', he'⟩ := ReceiveExchange.encodes hc he hin
          simp only [encodeBody, hencode, Option.bind_eq_bind, Option.bind_some]
          cases hmoved : (Reply.captured count).encode width scratch next out with
          | mk result rest =>
              obtain ⟨last, out'⟩ := rest
              rw [hmoved] at hc' he'
              cases result with
              | error fault => exact ⟨_, _, rfl, hc', he'⟩
              | ok complete =>
                  cases complete with
                  | false => exact ⟨_, _, rfl, hc', he'⟩
                  | true => exact ⟨_, _, rfl, hc', Reply.fieldCount_le_of_encode hmoved, he'⟩
      | _ => exact he.elim

theorem encodes_length (hc : c.Shows out) (he : e.At reply 2)
    (hin : AllInRange (reply.encodeAccesses width scratch 1 out)) :
    Encodes (Answers reply) (e.encodeLength width scratch.cells c) (reply.encode width scratch 1 out) := by
  have hnext : 1 < reply.fieldCount := by
    cases reply <;> simp only [Reply.fieldCount] <;> omega
  rw [encodeLength, he.responseLength_eq]
  cases hlength : reply.bodyLength width with
  | error fault =>
      have hfield : reply.field width scratch 1 = .error fault := by simp only [Reply.field, hlength]
      rw [Reply.encode, if_pos hnext, hfield]
      exact ⟨_, _, rfl, hc, rfl, he⟩
  | ok length =>
      have hfield : reply.field width scratch 1 = .ok (.u16 length) := by simp only [Reply.field, hlength]
      exact Reply.encodes_write hc ⟨rfl, he⟩ hnext hfield hin fun c' out' hc' hin => encodes_body hc' he hin

theorem encodes_kind (hc : c.Shows out) (he : e.At reply 2)
    (hin : AllInRange (reply.encodeAccesses width scratch 0 out)) :
    Encodes (Answers reply) (e.encodeKind reply.kind width scratch.cells c)
      (reply.encode width scratch 0 out) := by
  have hnext : 0 < reply.fieldCount := by
    cases reply <;> simp only [Reply.fieldCount] <;> omega
  exact Reply.encodes_write hc ⟨rfl, he⟩ hnext rfl hin fun c' out' hc' hin => encodes_length hc' he hin

theorem Answers.exists_at {state : Exchange × ResponseStep} (h : Answers reply state next) :
    ∃ index, state.1.At reply index := by
  obtain ⟨e, response⟩ := state
  cases response with
  | kind => exact ⟨_, h.2⟩
  | length => exact ⟨_, h.2⟩
  | body => exact ⟨_, h⟩
  | done => exact ⟨_, h.2⟩

/-- The encoding of a reply goes through, if the reply has what it takes, and comes to the same. -/
theorem encodes (hc : c.Shows out) (he : Answers reply (e, response) next)
    (hin : AllInRange (reply.encodeAccesses width scratch next out)) :
    Encodes (Answers reply) (e.encode response width scratch.cells c)
      (reply.encode width scratch next out) := by
  obtain ⟨index, hat⟩ := he.exists_at
  rw [encode, hat.response?_eq]
  cases response with
  | kind =>
      obtain ⟨rfl, he⟩ := he
      exact encodes_kind hc he hin
  | length =>
      obtain ⟨rfl, he⟩ := he
      exact encodes_length hc he hin
  | body => exact encodes_body hc he hin
  | done =>
      rw [Reply.encode_of_le he.1]
      exact ⟨_, _, rfl, hc, he⟩

end Exchange

end Infrared
