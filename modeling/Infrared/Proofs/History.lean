import Infrared.Proofs.Capture

/-!
A platform that keeps a history: every call that was made to it and how it was answered, earliest first.
It answers as the platform inside it does, so a device on it runs as on that platform.

`Adds` says which calls an operation makes. Two things are read off a history: what was sent, and whether
the hardware interrupts are enabled.
-/

namespace Infrared

structure Entry where
  call : Call
  answer : call.Answer

/-- A piece that was given to the network, and whether the network took it. -/
structure Sending where
  connection : Connection
  data : List UInt8
  taken : Bool
  deriving DecidableEq, Repr

def Entry.sending? : Entry → Option Sending
  | ⟨.send connection data, taken⟩ => some ⟨connection, data, taken⟩
  | _ => none

namespace Call

def IsSend : Call → Prop
  | send _ _ => True
  | _ => False

/-- Whether the interrupts are enabled after a call, if they were or were not before. -/
def switch (enabled : Bool) : Call → Bool
  | enableInterrupts => true
  | disableInterrupts => false
  | _ => enabled

end Call

theorem Entry.sending?_eq_none {entry : Entry} (h : ¬entry.call.IsSend) : entry.sending? = none := by
  obtain ⟨call, answer⟩ := entry
  cases call with
  | send connection data => exact absurd trivial h
  | _ => rfl

structure Traced (ω : Type) where
  world : ω
  history : List Entry

namespace Traced

variable {ω : Type}

def calls (t : Traced ω) : List Call :=
  t.history.map (·.call)

def sendings (t : Traced ω) : List Sending :=
  t.history.filterMap Entry.sending?

def taken (t : Traced ω) : List Sending :=
  t.sendings.filter (·.taken)

/-- Whether interrupts are enabled, if they were not before the history began. -/
def interruptsEnabled (t : Traced ω) : Bool :=
  t.calls.foldl Call.switch false

/-- Whether the second history is the first one and then the given calls. -/
def Adds (calls : List Call) (t u : Traced ω) : Prop :=
  ∃ entries, u.history = t.history ++ entries ∧ entries.map (·.call) = calls

namespace Adds

variable {t u v : Traced ω} {calls more : List Call}

theorem nil : Adds [] t t :=
  ⟨[], by simp, List.map_nil⟩

theorem trans (h : Adds calls t u) (h' : Adds more u v) : Adds (calls ++ more) t v := by
  obtain ⟨entries, hu, hcalls⟩ := h
  obtain ⟨further, hv, hmore⟩ := h'
  exact ⟨entries ++ further, by rw [hv, hu, List.append_assoc], by rw [List.map_append, hcalls, hmore]⟩

theorem calls_eq (h : Adds calls t u) : u.calls = t.calls ++ calls := by
  obtain ⟨entries, hu, hcalls⟩ := h
  rw [Traced.calls, hu, List.map_append, hcalls]
  rfl

theorem interruptsEnabled_eq (h : Adds calls t u) :
    u.interruptsEnabled = calls.foldl Call.switch t.interruptsEnabled := by
  rw [interruptsEnabled, h.calls_eq, List.foldl_append]
  rfl

theorem sendings_eq (h : Adds calls t u) (hcalls : ∀ call ∈ calls, ¬call.IsSend) :
    u.sendings = t.sendings := by
  obtain ⟨entries, hu, rfl⟩ := h
  have hnone : entries.filterMap Entry.sending? = [] := by
    rw [List.filterMap_eq_nil_iff]
    intro entry hentry
    exact Entry.sending?_eq_none (hcalls entry.call (List.mem_map_of_mem hentry))
  rw [sendings, hu, List.filterMap_append, hnone, List.append_nil]
  rfl

theorem taken_eq (h : Adds calls t u) (hcalls : ∀ call ∈ calls, ¬call.IsSend) :
    u.taken = t.taken := by
  rw [Traced.taken, h.sendings_eq hcalls]
  rfl

end Adds

variable [Platform ω]

def perform (call : Call) (t : Traced ω) : call.Answer × Traced ω :=
  ((Platform.perform call t.world).1,
    ⟨(Platform.perform call t.world).2, t.history ++ [⟨call, (Platform.perform call t.world).1⟩]⟩)

instance : Platform (Traced ω) := ⟨perform, fun t => Platform.patience t.world⟩

theorem adds_tell (call : Call) (t : Traced ω) : Adds [call] t (Platform.tell call t) :=
  ⟨[⟨call, (Platform.perform call t.world).1⟩], rfl, rfl⟩

theorem adds_tellAll (calls : List Call) (t : Traced ω) :
    Adds calls t (Platform.tellAll calls t) := by
  induction calls generalizing t with
  | nil => exact Adds.nil
  | cons call calls ih => exact (adds_tell call t).trans (ih (Platform.tell call t))

theorem adds_send (connection : Connection) (data : List UInt8) (t : Traced ω) :
    Adds [.send connection data] t (Platform.send connection data t).2 :=
  ⟨[⟨.send connection data, (Platform.perform (.send connection data) t.world).1⟩], rfl, rfl⟩

theorem sendings_send (connection : Connection) (data : List UInt8) (t : Traced ω) :
    (Platform.send connection data t).2.sendings =
      t.sendings ++ [⟨connection, data, (Platform.send connection data t).1⟩] := by
  have hhistory : (Platform.send connection data t).2.history =
      t.history ++ [⟨.send connection data, (Platform.send connection data t).1⟩] := rfl
  rw [sendings, hhistory, List.filterMap_append]
  rfl

theorem adds_listen (port : UInt16) (t : Traced ω) :
    Adds [.listen port] t (Platform.listen port t).2 :=
  ⟨[⟨.listen port, (Platform.perform (.listen port) t.world).1⟩], rfl, rfl⟩

theorem adds_sample (pin : UInt8) (t : Traced ω) :
    Adds [.level pin, .clock] t (Platform.sample pin t).2 := by
  refine ⟨[⟨.level pin, (Platform.perform (.level pin) t.world).1⟩,
    ⟨.clock, (Platform.perform .clock (Platform.perform (.level pin) t.world).2).1⟩], ?_, rfl⟩
  exact List.append_assoc _ _ _

end Traced

namespace Station

variable {ω : Type} [Platform ω]

def samples (pin : UInt8) (count : Nat) : List Call :=
  (List.replicate count [Call.level pin, .clock]).flatten

theorem exists_adds_record (s : Station) (budget : Nat) (r : Recording) (t : Traced ω) :
    ∃ count, Traced.Adds (samples s.pin count) t (s.record budget r t).2.2 := by
  induction budget generalizing r t with
  | zero => exact ⟨0, Traced.Adds.nil⟩
  | succ budget ih =>
      have hsample := Traced.adds_sample s.pin t
      rw [record_succ]
      split
      · exact ⟨1, hsample⟩
      · obtain ⟨count, hcount⟩ := ih (r.note s.pulseWidth (Platform.sample s.pin t).1.1
          (Platform.sample s.pin t).1.2) (Platform.sample s.pin t).2
        refine ⟨count + 1, ?_⟩
        rw [samples, List.replicate_succ, List.flatten_cons]
        exact hsample.trans hcount

theorem exists_adds_capture_of_armed {s : Station} (h : s.armed = true) (pulses : Buffer)
    (t : Traced ω) :
    ∃ count, Traced.Adds (.disableInterrupts :: samples s.pin (count + 1)) t
      (s.capture pulses t).2.2.2 := by
  have htell := Traced.adds_tell .disableInterrupts t
  have hsample := Traced.adds_sample s.pin (Platform.tell .disableInterrupts t)
  rw [capture_of_armed h]
  obtain ⟨count, hcount⟩ := s.exists_adds_record
    (Platform.patience (Platform.sample s.pin (Platform.tell .disableInterrupts t)).2)
    ⟨(Platform.sample s.pin (Platform.tell .disableInterrupts t)).1.2,
      (Platform.sample s.pin (Platform.tell .disableInterrupts t)).1.2,
      (Platform.sample s.pin (Platform.tell .disableInterrupts t)).1.1, s.cursor, pulses.reset⟩
    (Platform.sample s.pin (Platform.tell .disableInterrupts t)).2
  refine ⟨count, ?_⟩
  rw [samples, List.replicate_succ, List.flatten_cons]
  exact htell.trans (hsample.trans hcount)

theorem exists_adds_capture (s : Station) (pulses : Buffer) (t : Traced ω) :
    ∃ count, Traced.Adds (.disableInterrupts :: samples s.pin count) t
      (s.capture pulses t).2.2.2 := by
  cases h : s.armed with
  | true =>
      obtain ⟨count, hcount⟩ := exists_adds_capture_of_armed h pulses t
      exact ⟨count + 1, hcount⟩
  | false =>
      rw [capture_of_not_armed h]
      exact ⟨0, Traced.adds_tell .disableInterrupts t⟩

theorem not_isSend_of_mem_samples {pin : UInt8} {count : Nat} {call : Call}
    (h : call ∈ samples pin count) : ¬call.IsSend := by
  obtain ⟨pair, hpair, hcall⟩ := List.mem_flatten.mp h
  obtain ⟨-, rfl⟩ := List.mem_replicate.mp hpair
  simp only [List.mem_cons, List.not_mem_nil, or_false] at hcall
  rcases hcall with rfl | rfl
  · exact id
  · exact id

theorem foldl_switch_samples (pin : UInt8) (count : Nat) (enabled : Bool) :
    (samples pin count).foldl Call.switch enabled = enabled := by
  induction count with
  | zero => rfl
  | succ count ih =>
      rw [samples, List.replicate_succ, List.flatten_cons, List.foldl_append]
      exact ih

end Station

namespace Waveform

theorem mem_space {pin : UInt8} {duration : UInt32} {call : Call} (h : call ∈ space pin duration) :
    (∃ level, call = .write pin level) ∨ ∃ time, call = .delay time := by
  simp only [space, List.mem_cons, List.not_mem_nil, or_false] at h
  rcases h with rfl | rfl
  · exact .inl ⟨_, rfl⟩
  · exact .inr ⟨_, rfl⟩

theorem mem_mark {pin : UInt8} {half duration : UInt32} {call : Call}
    (h : call ∈ mark pin half duration) :
    (∃ level, call = .write pin level) ∨ ∃ time, call = .delay time := by
  rw [mark] at h
  split at h
  · exact mem_space h
  · rcases List.mem_append.mp h with h | h
    · obtain ⟨index, -, hindex⟩ := List.mem_flatMap.mp h
      simp only [List.mem_cons, List.not_mem_nil, or_false] at hindex
      rcases hindex with rfl | rfl
      · exact .inl ⟨_, rfl⟩
      · exact .inr ⟨_, rfl⟩
    · exact .inl ⟨_, List.mem_singleton.mp h⟩

theorem mem_pulses {pin : UInt8} {half : UInt32} {durations : List UInt32} {call : Call}
    (h : call ∈ pulses pin half durations) :
    (∃ level, call = .write pin level) ∨ ∃ time, call = .delay time := by
  induction durations using pulses.induct with
  | case1 => simp [pulses] at h
  | case2 last => exact mem_mark (by simpa [pulses] using h)
  | case3 m s rest ih =>
      rw [pulses, List.mem_append, List.mem_append] at h
      rcases h with (h | h) | h
      · exact mem_mark h
      · exact mem_space h
      · exact ih h

theorem mem_calls {pin : UInt8} {half : UInt32} {durations : List UInt32} {call : Call}
    (h : call ∈ calls pin half durations) :
    (∃ level, call = .output pin level) ∨ (∃ level, call = .write pin level) ∨
      ∃ time, call = .delay time := by
  rw [calls, List.cons_append, List.mem_cons, List.mem_append, List.mem_singleton] at h
  rcases h with rfl | h | rfl
  · exact .inl ⟨_, rfl⟩
  · exact .inr (mem_pulses h)
  · exact .inr (.inl ⟨_, rfl⟩)

theorem not_isSend_of_mem_calls {pin : UInt8} {half : UInt32} {durations : List UInt32} {call : Call}
    (h : call ∈ calls pin half durations) : ¬call.IsSend := by
  rcases mem_calls h with ⟨_, rfl⟩ | ⟨_, rfl⟩ | ⟨_, rfl⟩
  · exact id
  · exact id
  · exact id

theorem foldl_switch_calls (pin : UInt8) (half : UInt32) (durations : List UInt32) (enabled : Bool) :
    (calls pin half durations).foldl Call.switch enabled = enabled := by
  suffices h : ∀ (cs : List Call), (∀ call ∈ cs, call.switch enabled = enabled) →
      cs.foldl Call.switch enabled = enabled by
    apply h
    intro call hcall
    rcases mem_calls hcall with ⟨_, rfl⟩ | ⟨_, rfl⟩ | ⟨_, rfl⟩
    · rfl
    · rfl
    · rfl
  intro cs hcs
  induction cs with
  | nil => rfl
  | cons call cs ih =>
      rw [List.foldl_cons, hcs call List.mem_cons_self]
      exact ih fun other hother => hcs other (List.mem_cons_of_mem _ hother)

end Waveform

end Infrared
