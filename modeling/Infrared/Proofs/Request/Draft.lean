import Infrared.Proofs.Request.Content
import Infrared.Request.Reading

/-!
A body as a list of bytes. `Draft.advance` decodes as many fields of it as are there. Main statement: what
it makes of a list it makes of every longer one first, so decoding can stop after any byte and go on later
(`advance_push`).
-/

namespace Infrared.Request

/-- What a part reads, and what comes after it. -/
inductive Demand where
  | word (width : Nat) (next : Nat → Except Fault Part)
  | store (kind : Field.Kind) (length : Nat) (next : Span → Part)
  /-- The part is over without a further field. -/
  | nothing (next : Part)
  | complete

/-- A part for which a store has to have room for `length` bytes. -/
def Part.ifLeft (room length : Nat) (part : Part) : Except Fault Part :=
  if room < length then .error .payloadTooLarge else .ok part

/-- What a part reads, if the scratch store has the given capacity and room. -/
def Part.demand (l : Limits) (capacity room : Nat) : Part → Demand
  | .frequency => .word 4 fun value => .ok (.count (UInt32.ofNat value))
  | .count carrier =>
    .word 2 fun value =>
      if l.pulseWidth.capacity capacity < value then .error .payloadTooLarge
      else .ok (.pulses carrier value)
  | .pulses carrier 0 => .nothing (.complete (.send carrier))
  | .pulses carrier (left + 1) => .store .fixed l.pulseWidth.bytes fun _ => .pulses carrier left
  | .nameLength =>
    .word 1 fun value =>
      if l.nameLength < value then .error .payloadTooLarge else ifLeft room value (.name value)
  | .name length => .store .raw length fun span => .ssidLength span
  | .ssidLength nameSpan => .word 1 fun value => ifLeft room value (.ssid nameSpan value)
  | .ssid nameSpan length => .store .raw length fun span => .passwordLength nameSpan span
  | .passwordLength nameSpan ssidSpan =>
    .word 1 fun value => ifLeft room value (.password nameSpan ssidSpan value)
  | .password nameSpan ssidSpan length =>
    .store .raw length fun span => .complete (.config nameSpan ssidSpan span)
  | .complete _ => .complete

/-- A body of which some fields were decoded. -/
structure Draft where
  part : Part
  kept : List UInt8
  rest : List UInt8

namespace Draft

/-- What comes of decoding one field. -/
inductive Step where
  | next (draft : Draft)
  /-- There is no field, or not all of it. -/
  | short
  | refused

/-- The value of the next `width` bytes. -/
def value (c : Config) (width : Nat) (d : Draft) : Nat :=
  Word.value (Field.orient c.swapped .fixed (d.rest.take width))

def demand (c : Config) (d : Draft) : Demand :=
  d.part.demand ⟨c.pulseWidth, c.nameLengthMax⟩ c.scratchLength (c.scratchLength - d.kept.length)

def step (c : Config) (d : Draft) : Step :=
  match d.demand c with
  | .word width next =>
    if d.rest.length < width then .short
    else
      match next (d.value c width) with
      | .ok part => .next ⟨part, d.kept, d.rest.drop width⟩
      | .error _ => .refused
  | .store kind length next =>
    if c.scratchLength - d.kept.length < length ∨ kind.limit < length then .refused
    else if d.rest.length < length then .short
    else
      .next ⟨next ⟨d.kept.length, length⟩,
        d.kept ++ Field.orient c.swapped kind (d.rest.take length), d.rest.drop length⟩
  | .nothing next => .next ⟨next, d.kept, d.rest⟩
  | .complete => .short

def push (d : Draft) (bytes : List UInt8) : Draft :=
  ⟨d.part, d.kept, d.rest ++ bytes⟩

@[simp] theorem demand_push (c : Config) (d : Draft) (bytes : List UInt8) :
    (d.push bytes).demand c = d.demand c := rfl

end Draft

/-- Whether the part that a word leads to comes later in a body than the given bound. -/
def Demand.Below (bound : Nat) : Demand → Prop
  | .word _ next => ∀ value part, next value = .ok part → part.remaining < bound
  | .store _ _ next => ∀ span, (next span).remaining < bound
  | .nothing next => next.remaining < bound
  | .complete => True

theorem Part.eq_of_ifLeft {room length : Nat} {part next : Part}
    (h : ifLeft room length part = .ok next) : next = part := by
  unfold ifLeft at h
  split at h
  · simp at h
  · simpa using h.symm

theorem Part.below_demand (l : Limits) (capacity room : Nat) (part : Part) :
    (part.demand l capacity room).Below part.remaining := by
  cases part with
  | frequency =>
      intro value next h
      simp only [Except.ok.injEq] at h
      subst h
      simp [remaining]
  | count carrier =>
      intro value next h
      dsimp only at h
      split at h
      · simp at h
      · rename_i hroom
        simp only [Except.ok.injEq] at h
        subst h
        simp only [PulseWidth.capacity] at hroom
        simp only [remaining]
        omega
  | pulses carrier left =>
      cases left with
      | zero => simp [demand, Demand.Below, remaining]
      | succ left => intro span; simp [remaining]
  | nameLength =>
      intro value next h
      dsimp only at h
      split at h
      · simp at h
      · rw [eq_of_ifLeft h]
        simp [remaining]
  | name length => intro span; simp [remaining]
  | ssidLength nameSpan =>
      intro value next h
      rw [eq_of_ifLeft h]
      simp [remaining]
  | ssid nameSpan length => intro span; simp [remaining]
  | passwordLength nameSpan ssidSpan =>
      intro value next h
      rw [eq_of_ifLeft h]
      simp [remaining]
  | password nameSpan ssidSpan length => intro span; simp [remaining]
  | complete request => trivial

namespace Draft

theorem remaining_lt_of_step_eq {c : Config} {d e : Draft} (h : d.step c = .next e) :
    e.part.remaining < d.part.remaining := by
  have hbelow := d.part.below_demand ⟨c.pulseWidth, c.nameLengthMax⟩ c.scratchLength
    (c.scratchLength - d.kept.length)
  rw [← demand] at hbelow
  unfold step at h
  split at h
  · rename_i width next hdemand
    rw [hdemand] at hbelow
    split at h
    · simp at h
    · split at h
      · rename_i part hnext
        simp only [Step.next.injEq] at h
        subst h
        exact hbelow _ _ hnext
      · simp at h
  · rename_i kind length next hdemand
    rw [hdemand] at hbelow
    split at h
    · simp at h
    · split at h
      · simp at h
      · simp only [Step.next.injEq] at h
        subst h
        exact hbelow _
  · rename_i next hdemand
    rw [hdemand] at hbelow
    simp only [Step.next.injEq] at h
    subst h
    exact hbelow
  · simp at h

/-- Decodes fields as far as they are there. -/
def advance (c : Config) (d : Draft) : Option Draft :=
  match _h : d.step c with
  | .next e => e.advance c
  | .short => some d
  | .refused => none
termination_by d.part.remaining
decreasing_by exact remaining_lt_of_step_eq (by assumption)

theorem advance_of_next {c : Config} {d e : Draft} (h : d.step c = .next e) :
    d.advance c = e.advance c := by
  rw [advance]
  split
  · simp_all
  · simp_all
  · simp_all

theorem advance_of_short {c : Config} {d : Draft} (h : d.step c = .short) :
    d.advance c = some d := by
  rw [advance]
  split
  · simp_all
  · rfl
  · simp_all

theorem advance_of_refused {c : Config} {d : Draft} (h : d.step c = .refused) :
    d.advance c = none := by
  rw [advance]
  split
  · simp_all
  · simp_all
  · rfl

/-- What holds of what a draft comes to holds of the draft, if each step takes it back. -/
theorem advance_induction {c : Config} {motive : Draft → Prop}
    (next : ∀ d e, d.step c = .next e → motive e → motive d)
    (short : ∀ d, d.step c = .short → motive d)
    (refused : ∀ d, d.step c = .refused → motive d) (d : Draft) : motive d := by
  induction hn : d.part.remaining using Nat.strongRecOn generalizing d with
  | ind n ih =>
      cases hstep : d.step c with
      | next e => exact next d e hstep (ih _ (hn ▸ remaining_lt_of_step_eq hstep) e rfl)
      | short => exact short d hstep
      | refused => exact refused d hstep

theorem value_push {c : Config} {d : Draft} {width : Nat} (h : width ≤ d.rest.length)
    (bytes : List UInt8) : (d.push bytes).value c width = d.value c width := by
  simp only [value, push, List.take_append_of_le_length h]

theorem step_push_of_next {c : Config} {d e : Draft} (h : d.step c = .next e)
    (bytes : List UInt8) : (d.push bytes).step c = .next (e.push bytes) := by
  unfold step at h ⊢
  rw [demand_push]
  split at h
  · split at h
    · simp at h
    · rename_i hlength
      rw [if_neg (by simp only [push, List.length_append]; omega), value_push (by omega)]
      split at h
      · simp only [Step.next.injEq] at h
        subst h
        simp only [push, List.drop_append_of_le_length (Nat.le_of_not_lt hlength)]
      · simp at h
  · split at h
    · simp at h
    · rename_i hroom
      rw [if_neg (by exact hroom)]
      split at h
      · simp at h
      · rename_i hlength
        simp only [Step.next.injEq] at h
        subst h
        rw [if_neg (by simp only [push, List.length_append]; omega)]
        simp only [push, List.drop_append_of_le_length (Nat.le_of_not_lt hlength),
          List.take_append_of_le_length (Nat.le_of_not_lt hlength)]
  · simp only [Step.next.injEq] at h
    subst h
    rfl
  · simp at h

theorem step_push_of_refused {c : Config} {d : Draft} (h : d.step c = .refused)
    (bytes : List UInt8) : (d.push bytes).step c = .refused := by
  unfold step at h ⊢
  rw [demand_push]
  split at h
  · split at h
    · simp at h
    · rename_i hlength
      rw [if_neg (by simp only [push, List.length_append]; omega), value_push (by omega)]
      split at h
      · simp at h
      · rfl
  · split at h
    · rename_i hroom
      rw [if_pos (by exact hroom)]
    · split at h
      · simp at h
      · simp at h
  · simp at h
  · simp at h

/-- Decoding a longer list goes on from where decoding the shorter one stopped. -/
theorem advance_push (c : Config) (d : Draft) (bytes : List UInt8) :
    (d.push bytes).advance c = (d.advance c).bind fun e => (e.push bytes).advance c := by
  induction d using advance_induction (c := c) with
  | next d e hstep ih =>
      rw [advance_of_next hstep, advance_of_next (step_push_of_next hstep bytes), ih]
  | short d hstep => rw [advance_of_short hstep, Option.bind_some]
  | refused d hstep =>
      rw [advance_of_refused hstep, advance_of_refused (step_push_of_refused hstep bytes),
        Option.bind_none]

theorem step_eq_short_of_advance {c : Config} {d e : Draft} (h : d.advance c = some e) :
    e.step c = .short := by
  induction d using advance_induction (c := c) with
  | next d f hstep ih => exact ih (by rwa [advance_of_next hstep] at h)
  | short d hstep =>
      rw [advance_of_short hstep, Option.some.injEq] at h
      rwa [← h]
  | refused d hstep => simp [advance_of_refused hstep] at h

theorem exists_append_of_advance {c : Config} {d e : Draft} (h : d.advance c = some e) :
    ∃ decoded, d.rest = decoded ++ e.rest := by
  induction d using advance_induction (c := c) with
  | next d f hstep ih =>
      obtain ⟨decoded, hrest⟩ := ih (by rwa [advance_of_next hstep] at h)
      have hfront : ∃ front, d.rest = front ++ f.rest := by
        unfold step at hstep
        split at hstep
        · split at hstep
          · simp at hstep
          · split at hstep
            · simp only [Step.next.injEq] at hstep
              subst hstep
              exact ⟨_, (List.take_append_drop _ _).symm⟩
            · simp at hstep
        · split at hstep
          · simp at hstep
          · split at hstep
            · simp at hstep
            · simp only [Step.next.injEq] at hstep
              subst hstep
              exact ⟨_, (List.take_append_drop _ _).symm⟩
        · simp only [Step.next.injEq] at hstep
          subst hstep
          exact ⟨[], rfl⟩
        · simp at hstep
      obtain ⟨front, hfront⟩ := hfront
      exact ⟨front ++ decoded, by rw [hfront, hrest, List.append_assoc]⟩
  | short d hstep =>
      rw [advance_of_short hstep, Option.some.injEq] at h
      exact ⟨[], by rw [h]; rfl⟩
  | refused d hstep => simp [advance_of_refused hstep] at h

end Draft

end Infrared.Request
