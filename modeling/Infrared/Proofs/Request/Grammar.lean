import Infrared.Proofs.Request.Verdict

/-!
A list of bytes is accepted exactly if it begins with an admissible request (`verdict_eq_accepted_iff`), and
no admissible request begins with another one (`Content.length_wire_eq_of_isPrefix`).
-/

namespace Infrared

theorem PulseWidth.exists_encode_eq (w : PulseWidth) {text : List UInt8}
    (h : text.length = w.bytes) : ∃ pulse, pulse ≤ w.longest ∧ w.encode pulse = text := by
  have hvalue := Word.value_lt text
  rw [h] at hvalue
  have hpow : Word.bound w.bytes = w.longest.toNat + 1 := by cases w <;> decide
  have hlongest := w.longest.toNat_lt
  have hnat : (UInt32.ofNat (Word.value text)).toNat = Word.value text := by
    rw [UInt32.toNat_ofNat']
    omega
  have hle : UInt32.ofNat (Word.value text) ≤ w.longest := by
    rw [UInt32.le_iff_toNat_le, hnat]
    omega
  refine ⟨UInt32.ofNat (Word.value text), hle, ?_⟩
  rw [encode, saturate, if_pos hle, hnat, ← h, Word.bytes_value]

namespace Request

namespace Draft

variable {c : Config} {d e : Draft}

theorem step_of_word (width : Nat) (part : Part) {value : Nat} {next : Nat → Except Fault Part}
    {tail : List UInt8} (hdemand : d.demand c = .word width next)
    (hrest : d.rest = (Field.word width value).wire c.swapped ++ tail)
    (hvalue : value < Word.bound width) (hnext : next value = .ok part) :
    d.step c = .next ⟨part, d.kept, tail⟩ := by
  have hlength : ((Field.word width value).wire c.swapped).length = width :=
    Field.length_wire_word _ _ _
  have hread : d.value c width = value := by
    rw [Draft.value, hrest, List.take_left' hlength]
    exact Field.number_wire_word _ hvalue
  simp only [step, hdemand]
  rw [if_neg (by rw [hrest, List.length_append]; omega), hread, hnext]
  simp only [hrest, List.drop_left' hlength]

theorem step_of_store (next : Span → Part) {kind : Field.Kind} {text tail : List UInt8}
    (hdemand : d.demand c = .store kind text.length next)
    (hrest : d.rest = (Field.mk kind text).wire c.swapped ++ tail)
    (hroom : d.kept.length + text.length ≤ c.scratchLength)
    (hlimit : text.length ≤ kind.limit) :
    d.step c = .next ⟨next ⟨d.kept.length, text.length⟩, d.kept ++ text, tail⟩ := by
  have hlength : ((Field.mk kind text).wire c.swapped).length = text.length :=
    Field.length_wire _ _
  simp only [step, hdemand]
  rw [if_neg (by omega), if_neg (by rw [hrest, List.length_append]; omega), hrest,
    List.take_left' hlength, List.drop_left' hlength, Field.wire, Field.orient_orient]

theorem exists_step_of_advance (hopen : d.demand c ≠ .complete) (h : d.advance c = some e)
    (hcomplete : e.demand c = .complete) : ∃ f, d.step c = .next f ∧ f.advance c = some e := by
  cases hstep : d.step c with
  | next f => exact ⟨f, rfl, by rwa [advance_of_next hstep] at h⟩
  | short =>
      rw [advance_of_short hstep, Option.some.injEq] at h
      exact absurd (h ▸ hcomplete) hopen
  | refused => simp [advance_of_refused hstep] at h

theorem exists_of_word {width : Nat} {next : Nat → Except Fault Part}
    (hdemand : d.demand c = .word width next) (h : d.advance c = some e)
    (hcomplete : e.demand c = .complete) :
    ∃ value part tail, value < Word.bound width ∧ next value = .ok part ∧
      d.rest = (Field.word width value).wire c.swapped ++ tail ∧
      Draft.advance c ⟨part, d.kept, tail⟩ = some e := by
  obtain ⟨f, hstep, hadvance⟩ := exists_step_of_advance (by simp [hdemand]) h hcomplete
  simp only [step, hdemand] at hstep
  split at hstep
  · simp at hstep
  · rename_i hle
    have hlength : (d.rest.take width).length = width := List.length_take_of_le (by omega)
    have hwire := Field.wire_word_number c.swapped (d.rest.take width)
    have hvalue := Field.number_lt c.swapped (d.rest.take width)
    rw [hlength] at hwire hvalue
    split at hstep
    · rename_i part hnext
      simp only [Step.next.injEq] at hstep
      subst hstep
      refine ⟨_, part, d.rest.drop width, hvalue, hnext, ?_, hadvance⟩
      rw [hwire, List.take_append_drop]
    · simp at hstep

theorem exists_of_store {kind : Field.Kind} {length : Nat} {next : Span → Part}
    (hdemand : d.demand c = .store kind length next) (h : d.advance c = some e)
    (hcomplete : e.demand c = .complete) :
    ∃ text tail, text.length = length ∧ length ≤ c.scratchLength - d.kept.length ∧
      d.rest = (Field.mk kind text).wire c.swapped ++ tail ∧
      Draft.advance c ⟨next ⟨d.kept.length, length⟩, d.kept ++ text, tail⟩ = some e := by
  obtain ⟨f, hstep, hadvance⟩ := exists_step_of_advance (by simp [hdemand]) h hcomplete
  simp only [step, hdemand] at hstep
  split at hstep
  · simp at hstep
  · rename_i hroom
    split at hstep
    · simp at hstep
    · simp only [Step.next.injEq] at hstep
      subst hstep
      refine ⟨_, d.rest.drop length, ?_, by omega, ?_, hadvance⟩
      · rw [Field.length_orient, List.length_take]
        omega
      · rw [Field.wire, Field.orient_orient, List.take_append_drop]

theorem advance_pulses (frequency : UInt32) (pulses : List UInt32) (kept tail : List UInt8)
    (hroom : kept.length + pulses.length * c.pulseWidth.bytes ≤ c.scratchLength) :
    Draft.advance c ⟨.pulses frequency pulses.length, kept,
        (pulses.map (Content.pulseField c.pulseWidth)).flatMap (Field.wire c.swapped) ++ tail⟩ =
      some ⟨.complete (.send frequency), kept ++ pulses.flatMap c.pulseWidth.encode, tail⟩ := by
  induction pulses generalizing kept with
  | nil =>
      have hnothing : Draft.step c ⟨.pulses frequency 0, kept, tail⟩ =
          .next ⟨.complete (.send frequency), kept, tail⟩ := rfl
      have hshort : Draft.step c ⟨.complete (.send frequency), kept, tail⟩ = .short := rfl
      simp [advance_of_next hnothing, advance_of_short hshort]
  | cons pulse pulses ih =>
      have hlength := c.pulseWidth.length_encode pulse
      have hlimit : c.pulseWidth.bytes ≤ Field.Kind.fixed.limit := by
        cases c.pulseWidth <;> decide
      rw [List.length_cons, Nat.succ_mul] at hroom
      have hstep : Draft.step c ⟨.pulses frequency (pulse :: pulses).length, kept,
            ((pulse :: pulses).map (Content.pulseField c.pulseWidth)).flatMap (Field.wire c.swapped) ++
              tail⟩ =
          .next ⟨.pulses frequency pulses.length, kept ++ c.pulseWidth.encode pulse,
            (pulses.map (Content.pulseField c.pulseWidth)).flatMap (Field.wire c.swapped) ++ tail⟩ := by
        refine step_of_store (fun _ => .pulses frequency pulses.length) (by rw [hlength]; rfl)
          (by simp [Content.pulseField]) (by dsimp only; rw [hlength]; omega)
          (by rw [hlength]; exact hlimit)
      rw [advance_of_next hstep, ih _ (by rw [List.length_append, hlength]; omega),
        List.flatMap_cons, List.append_assoc]

theorem exists_of_pulses {frequency : UInt32} {left : Nat} {kept rest : List UInt8}
    (h : Draft.advance c ⟨.pulses frequency left, kept, rest⟩ = some e)
    (hcomplete : e.demand c = .complete) :
    e.part = .complete (.send frequency) ∧
      ∃ pulses : List UInt32, pulses.length = left ∧
        (∀ pulse ∈ pulses, pulse ≤ c.pulseWidth.longest) ∧
        rest = (pulses.map (Content.pulseField c.pulseWidth)).flatMap (Field.wire c.swapped) ++ e.rest ∧
        e.kept = kept ++ pulses.flatMap c.pulseWidth.encode := by
  induction left generalizing kept rest with
  | zero =>
      have hnothing : Draft.step c ⟨.pulses frequency 0, kept, rest⟩ =
          .next ⟨.complete (.send frequency), kept, rest⟩ := rfl
      have hshort : Draft.step c ⟨.complete (.send frequency), kept, rest⟩ = .short := rfl
      rw [advance_of_next hnothing, advance_of_short hshort, Option.some.injEq] at h
      subst h
      exact ⟨rfl, [], rfl, by simp, by simp, by simp⟩
  | succ left ih =>
      obtain ⟨text, tail, hlength, _, hrest, hadvance⟩ := exists_of_store rfl h hcomplete
      obtain ⟨pulse, hle, hencode⟩ := c.pulseWidth.exists_encode_eq hlength
      obtain ⟨hpart, pulses, hcount, hall, htail, hkept⟩ := ih hadvance
      refine ⟨hpart, pulse :: pulses, by rw [List.length_cons, hcount], ?_, ?_, ?_⟩
      · intro p hp
        rcases List.mem_cons.mp hp with rfl | hp
        · exact hle
        · exact hall p hp
      · rw [List.map_cons, List.flatMap_cons, Content.pulseField, hencode, List.append_assoc,
          ← htail]
        exact hrest
      · rw [hkept, List.flatMap_cons, hencode, List.append_assoc]

theorem advance_of_text (part : Part) (after : Span → Part) {next : Nat → Except Fault Part}
    {text tail : List UInt8} (hword : d.demand c = .word 1 next)
    (hnext : next text.length = .ok part)
    (hstore : ∀ rest, Draft.demand c ⟨part, d.kept, rest⟩ = .store .raw text.length after)
    (hrest : d.rest = (Content.textFields text).flatMap (Field.wire c.swapped) ++ tail)
    (hroom : d.kept.length + text.length ≤ c.scratchLength)
    (hlength : text.length ≤ Packet.stringLimit) :
    d.advance c =
      Draft.advance c ⟨after ⟨d.kept.length, text.length⟩, d.kept ++ text, tail⟩ := by
  simp only [Packet.stringLimit] at hlength
  have hbound := Word.bound_one
  have hwire : d.rest = (Field.word 1 text.length).wire c.swapped ++
      ((Field.raw text).wire c.swapped ++ tail) := by
    rw [hrest]
    simp [Content.textFields, Field.u8]
  rw [advance_of_next (step_of_word 1 part hword hwire (by omega) hnext)]
  apply advance_of_next
  apply step_of_store after (hstore _) rfl hroom
  simp only [Field.Kind.limit]
  omega

theorem exists_of_text (after : Nat → Span → Part) {next : Nat → Except Fault Part}
    (hword : d.demand c = .word 1 next)
    (hnext : ∀ length part, next length = .ok part →
      ∀ rest, Draft.demand c ⟨part, d.kept, rest⟩ = .store .raw length (after length))
    (h : d.advance c = some e) (hcomplete : e.demand c = .complete) :
    ∃ text tail part, next text.length = .ok part ∧ text.length ≤ Packet.stringLimit ∧
      text.length ≤ c.scratchLength - d.kept.length ∧
      d.rest = (Content.textFields text).flatMap (Field.wire c.swapped) ++ tail ∧
      Draft.advance c ⟨after text.length ⟨d.kept.length, text.length⟩, d.kept ++ text, tail⟩ =
        some e := by
  obtain ⟨length, part, rest, hlength, hpart, hfront, hadvance⟩ := exists_of_word hword h hcomplete
  obtain ⟨text, tail, rfl, hroom, hrest, hadvance⟩ :=
    exists_of_store (hnext _ _ hpart rest) hadvance hcomplete
  refine ⟨text, tail, part, hpart, ?_, hroom, ?_, hadvance⟩
  · have hbound := Word.bound_one
    simp only [Packet.stringLimit]
    omega
  · dsimp only at hrest
    rw [hfront, hrest]
    simp [Content.textFields, Field.u8, Field.raw]

end Draft

theorem Part.ofCode_eq (code : UInt8) :
    Part.ofCode code =
      if code = 0 then .ok .frequency
      else if code = 2 then .ok (.complete (.receive none))
      else if code = 4 then .ok .nameLength
      else .error (.unknownType code) := by
  by_cases h1 : code = 1
  · subst h1
    rfl
  by_cases h3 : code = 3
  · subst h3
    rfl
  by_cases h5 : code = 5
  · subst h5
    rfl
  simp only [Part.ofCode, Packet.Kind.ofCode, if_neg h1, if_neg h3, if_neg h5]
  by_cases h0 : code = 0
  · simp [h0, ofKind?]
  by_cases h2 : code = 2
  · simp [h2, ofKind?]
  by_cases h4 : code = 4
  · simp [h4, ofKind?]
  simp [h0, h2, h4]

def Content.firstPart : Content → Part
  | send _ _ => .frequency
  | receive => .complete (.receive none)
  | config _ _ _ => .nameLength

theorem Part.ofCode_code (content : Content) :
    Part.ofCode content.kind.code = .ok content.firstPart := by
  cases content <;> rfl

namespace Content

variable {c : Config}

theorem bodyLength_lt (h : c.Valid) {content : Content} (hcontent : content.Admissible c) :
    content.bodyLength c.pulseWidth < 65536 := by
  have hbody := h.bodyLength_le
  have hname := h.nameLengthMax_le
  simp only [Packet.lengthLimit, Packet.stringLimit, Packet.pulsesHeadLength] at hbody hname
  cases content with
  | send frequency pulses =>
      have hpulses := Nat.mul_le_mul_right c.pulseWidth.bytes hcontent.1
      simp only [Config.scratchLength] at hbody
      simp only [bodyLength, Packet.pulsesHeadLength]
      omega
  | receive => simp [bodyLength]
  | config name ssid password =>
      obtain ⟨hname', hssid, hpassword, _⟩ := hcontent
      simp only [Packet.stringLimit] at hssid hpassword
      simp only [bodyLength]
      omega

theorem advance_body_send {frequency : UInt32} {pulses : List UInt32}
    (hcontent : (Content.send frequency pulses).Admissible c) (tail : List UInt8) :
    Draft.advance c ⟨.frequency, [],
        ((Content.send frequency pulses).body c.pulseWidth).flatMap (Field.wire c.swapped) ++ tail⟩ =
      some ⟨.complete (Content.send frequency pulses).request,
        (Content.send frequency pulses).kept c.pulseWidth, tail⟩ := by
  obtain ⟨hcount, _⟩ := hcontent
  have hmax := c.pulsesMax.toNat_lt
  have hfrequency := frequency.toNat_lt
  have hfour := Word.bound_four
  have htwo := Word.bound_two
  have hroom := Nat.mul_le_mul_right c.pulseWidth.bytes hcount
  have hwire : (body c.pulseWidth (.send frequency pulses)).flatMap (Field.wire c.swapped) ++ tail =
      (Field.word 4 frequency.toNat).wire c.swapped ++ ((Field.word 2 pulses.length).wire c.swapped ++
        ((pulses.map (pulseField c.pulseWidth)).flatMap (Field.wire c.swapped) ++ tail)) := by
    simp [body, Field.u32, Field.u16]
  rw [kept_send, hwire,
    Draft.advance_of_next (Draft.step_of_word 4 (.count (UInt32.ofNat frequency.toNat)) rfl rfl
      (by omega) rfl),
    Draft.advance_of_next (Draft.step_of_word 2 (.pulses frequency pulses.length) rfl rfl (by omega)
      ?_)]
  · exact Draft.advance_pulses frequency pulses [] tail
      (by simpa [Config.scratchLength] using hroom)
  · rw [Config.capacity_scratchLength, if_neg (by omega), UInt32.ofNat_toNat]

theorem advance_body_config (h : c.Valid) {name ssid password : List UInt8}
    (hcontent : (Content.config name ssid password).Admissible c) (tail : List UInt8) :
    Draft.advance c ⟨.nameLength, [],
        ((Content.config name ssid password).body c.pulseWidth).flatMap (Field.wire c.swapped) ++
          tail⟩ =
      some ⟨.complete (Content.config name ssid password).request,
        (Content.config name ssid password).kept c.pulseWidth, tail⟩ := by
  obtain ⟨hname, hssid, hpassword, hroom⟩ := hcontent
  have hlimit := h.nameLengthMax_le
  have hwire : (body c.pulseWidth (.config name ssid password)).flatMap (Field.wire c.swapped) ++ tail =
      (textFields name).flatMap (Field.wire c.swapped) ++
        ((textFields ssid).flatMap (Field.wire c.swapped) ++
          ((textFields password).flatMap (Field.wire c.swapped) ++ tail)) := by
    simp [body]
  rw [hwire,
    Draft.advance_of_text (.name name.length) (fun span => .ssidLength span) rfl ?_ (fun _ => rfl) rfl
      (by dsimp only [List.length_nil]; omega) (by omega),
    Draft.advance_of_text (.ssid ⟨0, name.length⟩ ssid.length)
      (fun span => .passwordLength ⟨0, name.length⟩ span) rfl ?_ (fun _ => rfl) rfl
      (by dsimp only [List.nil_append]; omega) hssid,
    Draft.advance_of_text
      (.password ⟨0, name.length⟩ ⟨name.length, ssid.length⟩ password.length)
      (fun span => .complete (.config ⟨0, name.length⟩ ⟨name.length, ssid.length⟩ span))
      rfl ?_ (fun _ => rfl) rfl (by simp only [List.nil_append, List.length_append]; omega)
      hpassword]
  · rw [Draft.advance_of_short rfl]
    simp [request, kept]
  · exact if_neg (by simp only [List.nil_append, List.length_append]; omega)
  · exact if_neg (by simp only [List.nil_append]; omega)
  · exact (if_neg (Nat.not_lt.mpr hname)).trans (if_neg (by simp only [List.length_nil]; omega))

/-- The body of an admissible request is decoded as what it says. -/
theorem advance_body (h : c.Valid) {content : Content} (hcontent : content.Admissible c)
    (tail : List UInt8) :
    Draft.advance c ⟨content.firstPart, [],
        (content.body c.pulseWidth).flatMap (Field.wire c.swapped) ++ tail⟩ =
      some ⟨.complete content.request, content.kept c.pulseWidth, tail⟩ := by
  cases content with
  | send frequency pulses => exact advance_body_send hcontent tail
  | receive => exact Draft.advance_of_short rfl
  | config name ssid password => exact advance_body_config h hcontent tail

theorem exists_of_advance_frequency {body kept rest : List UInt8} {r : Request}
    (h : Draft.advance c ⟨.frequency, [], body⟩ = some ⟨.complete r, kept, rest⟩) :
    ∃ frequency pulses, (Content.send frequency pulses).Admissible c ∧
      (Content.send frequency pulses).request = r ∧
      (Content.send frequency pulses).kept c.pulseWidth = kept ∧
      body = ((Content.send frequency pulses).body c.pulseWidth).flatMap (Field.wire c.swapped) ++
        rest := by
  obtain ⟨value, part, tail, hvalue, hnext, hbody, hadvance⟩ := Draft.exists_of_word rfl h rfl
  cases hnext
  obtain ⟨count, part, tail', hcount, hnext, htail, hadvance⟩ :=
    Draft.exists_of_word rfl hadvance rfl
  rw [Config.capacity_scratchLength] at hnext
  split at hnext
  · simp at hnext
  · rename_i hmax
    cases hnext
    obtain ⟨hrequest, pulses, hlength, hall, hpulses, hkept⟩ := Draft.exists_of_pulses hadvance rfl
    have hnat : (UInt32.ofNat value).toNat = value := by
      have hbound := Word.bound_four
      rw [UInt32.toNat_ofNat']
      omega
    refine ⟨UInt32.ofNat value, pulses, ⟨by omega, hall⟩, ?_, ?_, ?_⟩
    · simpa [request] using hrequest.symm
    · rw [Content.kept_send]
      exact hkept.symm
    · dsimp only at hbody htail hpulses
      rw [hbody, htail, hpulses]
      simp [Content.body, Field.u32, Field.u16, hlength, hnat]

theorem exists_of_advance_nameLength {body kept rest : List UInt8} {r : Request}
    (h : Draft.advance c ⟨.nameLength, [], body⟩ = some ⟨.complete r, kept, rest⟩) :
    ∃ name ssid password, (Content.config name ssid password).Admissible c ∧
      (Content.config name ssid password).request = r ∧
      (Content.config name ssid password).kept c.pulseWidth = kept ∧
      body = ((Content.config name ssid password).body c.pulseWidth).flatMap (Field.wire c.swapped) ++
        rest := by
  obtain ⟨name, tail₁, part₁, hnext₁, hname, hroom₁, hbody, hadvance⟩ :=
    Draft.exists_of_text (fun _ span => .ssidLength span) rfl
      (fun length part hpart rest => by
        split at hpart
        · simp at hpart
        · rw [Part.eq_of_ifLeft hpart]
          rfl) h rfl
  obtain ⟨ssid, tail₂, part₂, hnext₂, hssid, hroom₂, htail₁, hadvance⟩ :=
    Draft.exists_of_text (fun _ span => .passwordLength ⟨0, name.length⟩ span) rfl
      (fun length part hpart rest => by
        rw [Part.eq_of_ifLeft hpart]
        rfl) hadvance rfl
  obtain ⟨password, tail₃, part₃, hnext₃, hpassword, hroom₃, htail₂, hadvance⟩ :=
    Draft.exists_of_text
      (fun _ span => .complete (.config ⟨0, name.length⟩ ⟨name.length, ssid.length⟩ span))
      rfl
      (fun length part hpart rest => by
        rw [Part.eq_of_ifLeft hpart]
        rfl) hadvance rfl
  rw [Draft.advance_of_short rfl] at hadvance
  simp only [Option.some.injEq, Draft.mk.injEq, Part.complete.injEq] at hadvance
  obtain ⟨hrequest, hkept, hrest⟩ := hadvance
  simp only [List.nil_append, List.length_append, List.length_nil] at hroom₁ hroom₂ hroom₃
  refine ⟨name, ssid, password, ⟨?_, hssid, hpassword, ?_⟩, ?_, ?_, ?_⟩
  · split at hnext₁
    · simp at hnext₁
    · rename_i hle
      exact Nat.le_of_not_lt hle
  · omega
  · rw [← hrequest]
    simp [request]
  · rw [← hkept]
    simp [Content.kept]
  · dsimp only at hbody htail₁ htail₂
    rw [hbody, htail₁, htail₂, hrest]
    simp [Content.body]

/-- A body that is decoded completely is that of an admissible request. -/
theorem exists_of_advance_eq {part : Part} {body kept rest : List UInt8} {r : Request}
    {code : UInt8} (hpart : Part.ofCode code = .ok part)
    (h : Draft.advance c ⟨part, [], body⟩ = some ⟨.complete r, kept, rest⟩) :
    ∃ content : Content, content.Admissible c ∧ content.kind.code = code ∧
      content.firstPart = part ∧ content.request = r ∧ content.kept c.pulseWidth = kept ∧
      body = (content.body c.pulseWidth).flatMap (Field.wire c.swapped) ++ rest := by
  rw [Part.ofCode_eq] at hpart
  split at hpart
  · rename_i hcode
    cases hpart
    obtain ⟨frequency, pulses, hcontent, hrequest, hkept, hbody⟩ := exists_of_advance_frequency h
    exact ⟨.send frequency pulses, hcontent, hcode.symm, rfl, hrequest, hkept, hbody⟩
  · split at hpart
    · rename_i hcode
      cases hpart
      rw [Draft.advance_of_short rfl] at h
      simp only [Option.some.injEq, Draft.mk.injEq, Part.complete.injEq] at h
      exact ⟨.receive, trivial, hcode.symm, rfl, h.1, h.2.1, h.2.2⟩
    · split at hpart
      · rename_i hcode
        cases hpart
        obtain ⟨name, ssid, password, hcontent, hrequest, hkept, hbody⟩ :=
          exists_of_advance_nameLength h
        exact ⟨.config name ssid password, hcontent, hcode.symm, rfl, hrequest, hkept, hbody⟩
      · simp at hpart

theorem wire_eq (content : Content) :
    content.wire c = content.kind.code :: ((Field.u16 (content.bodyLength c.pulseWidth)).wire c.swapped ++
      (content.body c.pulseWidth).flatMap (Field.wire c.swapped)) := by
  rw [wire_eq_flatMap, fields, List.flatMap_cons, List.flatMap_cons, Field.wire_u8, UInt8.ofNat_toNat]
  rfl

theorem length_wire (content : Content) :
    (content.wire c).length = Packet.headLength + content.bodyLength c.pulseWidth := by
  rw [wire_eq, List.length_cons, List.length_append, length_body, Field.u16,
    Field.length_wire_word, Packet.headLength]
  omega

end Content

theorem verdict_wire_append {c : Config} (h : c.Valid) {content : Content}
    (hcontent : content.Admissible c) (tail : List UInt8) :
    verdict c (content.wire c ++ tail) =
      .accepted content.request (content.kept c.pulseWidth) := by
  have hlength := Field.length_wire_word c.swapped 2 (content.bodyLength c.pulseWidth)
  have hbody := Content.length_body c content
  have hlt := Content.bodyLength_lt h hcontent
  have hbound := Word.bound_two
  rw [Content.wire_eq, List.cons_append, List.append_assoc, verdict, Part.ofCode_code]
  dsimp only
  rw [tailVerdict, Field.u16, if_neg (by rw [List.length_append]; omega),
    List.take_left' hlength, List.drop_left' hlength, Field.number_wire_word _ (by omega),
    bodyVerdict, Content.advance_body h hcontent tail]
  dsimp only
  rw [if_pos (by rw [List.length_append]; omega)]

theorem exists_of_verdict_eq_accepted {c : Config} {bytes kept : List UInt8} {r : Request}
    (h : verdict c bytes = .accepted r kept) :
    ∃ content : Content, content.Admissible c ∧ content.wire c <+: bytes ∧
      content.request = r ∧ content.kept c.pulseWidth = kept := by
  cases bytes with
  | nil => simp [verdict] at h
  | cons code bytes =>
      simp only [verdict] at h
      split at h
      · rename_i part hpart
        unfold tailVerdict at h
        split at h
        · simp at h
        · rename_i hlength
          have htwo : (bytes.take 2).length = 2 := List.length_take_of_le (by omega)
          unfold bodyVerdict at h
          split at h
          · simp at h
          · rename_i request kept' rest hadvance
            split at h
            · rename_i hdeclared
              simp only [Verdict.accepted.injEq] at h
              obtain ⟨rfl, rfl⟩ := h
              obtain ⟨content, hcontent, rfl, rfl, hrequest, hkept, hbody⟩ :=
                Content.exists_of_advance_eq hpart hadvance
              refine ⟨content, hcontent, ?_, hrequest, hkept⟩
              have hrest := congrArg List.length hbody
              rw [List.length_append, Content.length_body] at hrest
              have hhead : (Field.u16 (content.bodyLength c.pulseWidth)).wire c.swapped =
                  bytes.take 2 := by
                rw [← Field.wire_word_number c.swapped (bytes.take 2), htwo, ← hdeclared, Field.u16]
                congr 2
                omega
              rw [Content.wire_eq, hhead]
              refine ⟨rest, ?_⟩
              rw [List.cons_append, List.append_assoc, ← hbody, List.take_append_drop]
            · simp at h
          · split at h
            · simp at h
            · simp at h
      · simp at h

/-- A list of bytes is accepted exactly if it begins with an admissible request, and as that one. -/
theorem verdict_eq_accepted_iff {c : Config} (h : c.Valid) {bytes kept : List UInt8} {r : Request} :
    verdict c bytes = .accepted r kept ↔
      ∃ content : Content, content.Admissible c ∧ content.wire c <+: bytes ∧
        content.request = r ∧ content.kept c.pulseWidth = kept := by
  constructor
  · exact exists_of_verdict_eq_accepted
  · rintro ⟨content, hcontent, ⟨tail, rfl⟩, rfl, rfl⟩
    exact verdict_wire_append h hcontent tail

/-- The head of a request tells its type and its length. -/
theorem Content.bodyLength_eq_of_isPrefix {c : Config} {content other : Content}
    (hlt : content.bodyLength c.pulseWidth < 65536) (hlt' : other.bodyLength c.pulseWidth < 65536)
    (hbegin : content.wire c <+: other.wire c) :
    content.kind.code = other.kind.code ∧
      content.bodyLength c.pulseWidth = other.bodyLength c.pulseWidth := by
  have hbound := Word.bound_two
  obtain ⟨tail, htail⟩ := hbegin
  rw [wire_eq, wire_eq, List.cons_append, List.append_assoc, List.cons.injEq] at htail
  have hlength := Field.length_wire_word c.swapped 2 (content.bodyLength c.pulseWidth)
  have hlength' := Field.length_wire_word c.swapped 2 (other.bodyLength c.pulseWidth)
  have htake := congrArg (List.take 2) htail.2
  rw [Field.u16, Field.u16, List.take_left' hlength, List.take_left' hlength'] at htake
  have hnumber := congrArg (Field.number c.swapped) htake
  rw [Field.number_wire_word _ (by omega), Field.number_wire_word _ (by omega)] at hnumber
  exact ⟨htail.1, hnumber⟩

/-- What follows the type of an admissible request that has begun tells its length. -/
theorem Content.length_wire_eq_of_isPrefix {c : Config} (h : c.Valid) {content other : Content}
    (hcontent : content.Admissible c) (hother : other.Admissible c)
    (hbegin : content.wire c <+: other.wire c) :
    (content.wire c).length = (other.wire c).length := by
  rw [length_wire, length_wire,
    (bodyLength_eq_of_isPrefix (bodyLength_lt h hcontent) (bodyLength_lt h hother) hbegin).2]

/-- Nothing has come yet of a list with which an admissible request begins, unless it is the request. -/
theorem verdict_eq_waiting_of_isPrefix {c : Config} (h : c.Valid) {content : Content}
    (hcontent : content.Admissible c) {bytes : List UInt8} (hbegin : bytes <+: content.wire c)
    (hne : bytes ≠ content.wire c) : verdict c bytes = .waiting := by
  obtain ⟨tail, htail⟩ := hbegin
  have hwire := verdict_wire_append h hcontent []
  rw [List.append_nil, ← htail] at hwire
  cases hverdict : verdict c bytes with
  | waiting => rfl
  | accepted r kept =>
      obtain ⟨other, hother, hother', _, _⟩ := exists_of_verdict_eq_accepted hverdict
      have hlength := Content.length_wire_eq_of_isPrefix h hother hcontent
        (hother'.trans ⟨tail, htail⟩)
      have hle := hother'.length_le
      have hsum := congrArg List.length htail
      rw [List.length_append] at hsum
      have hnil : tail = [] := List.eq_nil_of_length_eq_zero (by omega)
      rw [hnil, List.append_nil] at htail
      exact absurd htail hne
  | refused =>
      rw [verdict_append_of_ne_waiting (by simp [hverdict]), hverdict] at hwire
      simp at hwire

end Request

end Infrared
