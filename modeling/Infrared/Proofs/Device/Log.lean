import Infrared.Proofs.Device.Effect

/-!
Logs. A log has everything that happens to a device, and everything that it calls, one after the other. Which
connection is open, and whether all that was sent on it was confirmed, is read off a log.
-/

namespace Infrared

/-- Whether a call is one to the network for the conversation on a connection. -/
def Call.On (connection : Connection) : Call → Prop
  | send other _ | close other => other = connection
  | _ => False

namespace Call

variable {call : Call}

theorem not_on_of_minor (h : call.Minor) (connection : Connection) : ¬call.On connection := by
  cases call with
  | send other data => exact absurd h id
  | close other => exact absurd h id
  | _ => exact id

theorem not_on_of_drives (h : call.Drives) (connection : Connection) : ¬call.On connection := by
  cases call with
  | send other data => exact absurd h id
  | close other => exact absurd h id
  | _ => exact id

theorem not_on_of_configured (h : ∃ name ssid password, call = .configured name ssid password)
    (connection : Connection) : ¬call.On connection := by
  obtain ⟨name, ssid, password, rfl⟩ := h
  exact id

theorem ne_close_of_not_on {connection : Connection} (h : ¬call.On connection) :
    call ≠ .close connection := by
  rintro rfl
  exact h rfl

end Call

namespace Device

variable {ω : Type}

/-- What is in a log: an operation, or a call that it makes. -/
inductive Moment (ω : Type) where
  | operation (op : Operation ω)
  | call (entry : Entry)

namespace Moment

/-- Whether a connection is offered to the device. -/
def Opens (connection : Connection) (m : Moment ω) : Prop :=
  m = operation (.handle (.connect connection))

/-- Whether a connection is given up, by the device or by its client. -/
def Severs (connection : Connection) : Moment ω → Prop
  | operation (.handle (.disconnect other)) => other = connection
  | call ⟨.close other, _⟩ => other = connection
  | _ => False

def On (connection : Connection) : Moment ω → Prop
  | operation _ => False
  | call entry => entry.call.On connection

end Moment

/-- Whether a connection was made and not given up since. -/
def Opened (connection : Connection) (log : List (Moment ω)) : Prop :=
  ∃ before after, log = before ++ .operation (.handle (.connect connection)) :: after ∧
    ∀ m ∈ after, ¬m.Severs connection

/-- Whether every piece that was sent on a connection, since it was made, was confirmed. -/
def Confirmed (connection : Connection) (log : List (Moment ω)) : Prop :=
  ∀ before data after, log = before ++ .call ⟨.send connection data, true⟩ :: after →
    (∀ m ∈ after, ¬m.Severs connection) → .operation (.handle (.sent connection)) ∈ after

/-- What is allowed at a moment, after and before others: to send a piece that is neither empty nor too long on an
open connection, when all pieces before were confirmed, and to close the connection at once if the piece is
refused; and to close an open connection. -/
def Moment.Permitted (limit : Nat) (before : List (Moment ω)) : Moment ω → List (Moment ω) → Prop
  | call ⟨.send connection data, taken⟩, after =>
    Opened connection before ∧ Confirmed connection before ∧ 0 < data.length ∧ data.length ≤ limit ∧
      ((taken : Bool) = false → ∃ rest, after = call ⟨.close connection, ()⟩ :: rest)
  | call ⟨.close connection, _⟩, _ => Opened connection before
  | _, _ => True

/-- Whether everything in the second part of a log is allowed. -/
def Lawful (limit : Nat) (before log : List (Moment ω)) : Prop :=
  ∀ between m after, log = between ++ m :: after → m.Permitted limit (before ++ between) after

section Logs

variable {connection : Connection} {log before ms rest : List (Moment ω)} {m : Moment ω} {limit : Nat}

theorem opened_concat :
    Opened connection (log ++ [m]) ↔ m.Opens connection ∨ Opened connection log ∧ ¬m.Severs connection := by
  constructor
  · rintro ⟨before, after, hlog, hafter⟩
    rcases List.eq_nil_or_concat after with rfl | ⟨init, last, rfl⟩
    · obtain ⟨-, hm⟩ := List.append_inj' hlog rfl
      simp only [List.cons.injEq, and_true] at hm
      subst hm
      exact .inl rfl
    · rw [List.concat_eq_append] at hlog hafter
      rw [← List.cons_append, ← List.append_assoc] at hlog
      obtain ⟨hinit, hm⟩ := List.append_inj' hlog rfl
      simp only [List.cons.injEq, and_true] at hm
      subst hm
      refine .inr ⟨⟨before, init, hinit, fun m hm => hafter m (List.mem_append_left _ hm)⟩, ?_⟩
      exact hafter _ (by simp)
  · rintro (hopens | ⟨⟨before, after, rfl, hafter⟩, hm⟩)
    · exact ⟨log, [], by rw [hopens], by simp⟩
    · refine ⟨before, after ++ [m], by simp, ?_⟩
      intro other hother
      rcases List.mem_append.mp hother with hother | hother
      · exact hafter other hother
      · rw [List.mem_singleton.mp hother]
        exact hm

/-- A connection stays open until it is given up. -/
theorem opened_append (hms : ∀ m ∈ ms, ¬m.Opens connection) :
    Opened connection (log ++ ms) ↔ Opened connection log ∧ ∀ m ∈ ms, ¬m.Severs connection := by
  induction ms generalizing log with
  | nil => simp
  | cons m ms ih =>
      rw [← List.singleton_append, ← List.append_assoc, ih fun other hother => hms other (by simp [hother]),
        opened_concat]
      have hm := hms m List.mem_cons_self
      simp only [hm, false_or, List.singleton_append, List.forall_mem_cons, and_assoc]

theorem not_opened_nil (connection : Connection) : ¬Opened connection ([] : List (Moment ω)) := by
  rintro ⟨before, after, hlog, -⟩
  simp at hlog

theorem confirmed_nil (connection : Connection) : Confirmed connection ([] : List (Moment ω)) := by
  intro before data after hlog
  simp at hlog

theorem confirmed_concat {connection : Connection} {log : List (Moment ω)} {m : Moment ω}
    (h : Confirmed connection log) (hm : ∀ data, m ≠ .call ⟨.send connection data, true⟩) :
    Confirmed connection (log ++ [m]) := by
  intro before data after hlog hafter
  rcases List.eq_nil_or_concat after with rfl | ⟨init, last, rfl⟩
  · obtain ⟨-, hlast⟩ := List.append_inj' hlog rfl
    simp only [List.cons.injEq, and_true] at hlast
    exact absurd hlast (hm data)
  · rw [List.concat_eq_append] at hlog hafter ⊢
    rw [← List.cons_append, ← List.append_assoc] at hlog
    obtain ⟨hinit, -⟩ := List.append_inj' hlog rfl
    refine List.mem_append_left _ (h before data init hinit ?_)
    exact fun m hm => hafter m (List.mem_append_left _ hm)

/-- What was confirmed stays so while nothing more is sent. -/
theorem confirmed_append (h : Confirmed connection log)
    (hms : ∀ data, .call ⟨.send connection data, true⟩ ∉ ms) : Confirmed connection (log ++ ms) := by
  induction ms generalizing log with
  | nil => rwa [List.append_nil]
  | cons m ms ih =>
      rw [← List.singleton_append, ← List.append_assoc]
      refine ih (confirmed_concat h fun data heq => hms data ?_) fun data hmem => hms data ?_
      · rw [heq]
        exact List.mem_cons_self
      · exact List.mem_cons_of_mem _ hmem

/-- Nothing remains to be confirmed when a connection is given up, or when a confirmation comes. -/
theorem confirmed_concat_of_severs
    (hm : m.Severs connection ∨ m = .operation (.handle (.sent connection))) :
    Confirmed connection (log ++ [m]) := by
  intro before data after hlog hafter
  rcases List.eq_nil_or_concat after with rfl | ⟨init, last, rfl⟩
  · obtain ⟨-, hlast⟩ := List.append_inj' hlog rfl
    simp only [List.cons.injEq, and_true] at hlast
    subst hlast
    rcases hm with hsevers | heq
    · exact absurd hsevers id
    · simp at heq
  · rw [List.concat_eq_append] at hlog hafter ⊢
    rw [← List.cons_append, ← List.append_assoc] at hlog
    obtain ⟨-, hlast⟩ := List.append_inj' hlog rfl
    simp only [List.cons.injEq, and_true] at hlast
    subst hlast
    rcases hm with hsevers | heq
    · exact absurd hsevers (hafter m (by simp))
    · rw [heq]
      simp

theorem lawful_nil (limit : Nat) (before : List (Moment ω)) : Lawful limit before [] := by
  intro between m after hlog
  simp at hlog

theorem lawful_cons (hm : m.Permitted limit before rest)
    (hrest : Lawful limit (before ++ [m]) rest) : Lawful limit before (m :: rest) := by
  intro between other after hlog
  cases between with
  | nil =>
      simp only [List.nil_append, List.cons.injEq] at hlog
      obtain ⟨rfl, rfl⟩ := hlog
      rwa [List.append_nil]
  | cons first between =>
      simp only [List.cons_append, List.cons.injEq] at hlog
      obtain ⟨rfl, hlog⟩ := hlog
      have h := hrest between other after hlog
      rwa [List.append_assoc] at h

theorem Moment.permitted_of_not_on (h : ∀ connection, ¬m.On connection) :
    m.Permitted limit before rest := by
  cases m with
  | operation op => trivial
  | call entry =>
      obtain ⟨call, answer⟩ := entry
      cases call with
      | send connection data => exact absurd rfl (h connection)
      | close connection => exact absurd rfl (h connection)
      | _ => trivial

/-- What is no call for a conversation is always allowed. -/
theorem lawful_append (hms : ∀ m ∈ ms, ∀ connection, ¬m.On connection)
    (hrest : Lawful limit (before ++ ms) rest) : Lawful limit before (ms ++ rest) := by
  induction ms generalizing before with
  | nil => rwa [List.append_nil] at hrest
  | cons m ms ih =>
      refine lawful_cons (Moment.permitted_of_not_on (hms m List.mem_cons_self)) ?_
      refine ih (fun other hother => hms other (List.mem_cons_of_mem _ hother)) ?_
      rwa [List.append_assoc]

end Logs

/-- An operation and the calls that it makes. -/
def moments (op : Operation ω) (entries : List Entry) : List (Moment ω) :=
  .operation op :: entries.map .call

section Moments

variable {connection : Connection} {op : Operation ω} {entries more : List Entry} {m : Moment ω}

theorem moments_append (op : Operation ω) (entries more : List Entry) :
    moments op (entries ++ more) = moments op entries ++ more.map .call := by
  rw [moments, moments, List.map_append, List.cons_append]

theorem not_on_of_mem_moments (h : ∀ entry ∈ entries, ∀ connection, ¬entry.call.On connection) :
    ∀ m ∈ moments op entries, ∀ connection, ¬m.On connection := by
  intro m hm connection
  rcases List.mem_cons.mp hm with rfl | hm
  · exact id
  · obtain ⟨entry, hentry, rfl⟩ := List.mem_map.mp hm
    exact h entry hentry connection

theorem not_opens_of_mem_moments (hop : ∀ connection, op ≠ .handle (.connect connection)) :
    ∀ m ∈ moments op entries, ¬m.Opens connection := by
  intro m hm
  rcases List.mem_cons.mp hm with rfl | hm
  · simpa [Moment.Opens] using hop connection
  · obtain ⟨entry, hentry, rfl⟩ := List.mem_map.mp hm
    simp [Moment.Opens]

theorem call_eq_of_severs {entry : Entry}
    (h : (Moment.call entry : Moment ω).Severs connection) : entry.call = .close connection := by
  obtain ⟨call, answer⟩ := entry
  cases call with
  | close other => exact congrArg Call.close h
  | _ => exact absurd h id

theorem not_severs_of_mem_moments {s : Session.View} (hop : ¬op.Moves s)
    (hserved : s.connection? = some connection)
    (hentries : ∀ entry ∈ entries, entry.call ≠ .close connection) :
    ∀ m ∈ moments op entries, ¬m.Severs connection := by
  intro m hm hsevers
  rcases List.mem_cons.mp hm with rfl | hm
  · cases op with
    | handle event =>
        cases event with
        | disconnect other =>
            obtain rfl : other = connection := hsevers
            exact hop hserved
        | _ => exact hsevers
    | _ => exact hsevers
  · obtain ⟨entry, hentry, rfl⟩ := List.mem_map.mp hm
    exact hentries entry hentry (call_eq_of_severs hsevers)

theorem sending?_eq_none_of_not_on {entry : Entry} (h : ∀ connection, ¬entry.call.On connection) :
    entry.sending? = none := by
  apply Entry.sending?_eq_none
  intro hsend
  obtain ⟨call, answer⟩ := entry
  cases call with
  | send connection data => exact h connection rfl
  | _ => exact hsend

theorem not_on_of_armCapture {pin : UInt8} (hcalls : entries.map (·.call) =
      [.input pin, .disableInterrupts, .clearEdge pin, .attachEdge pin, .enableInterrupts]) :
    ∀ entry ∈ entries, ∀ connection, ¬entry.call.On connection := by
  have hnone : ∀ call ∈ entries.map (·.call), ∀ connection, ¬call.On connection := by
    rw [hcalls]
    simp [Call.On]
  exact fun entry hentry => hnone _ (List.mem_map_of_mem hentry)

theorem send_mem_moments {data : List UInt8} {taken : Bool} :
    .call ⟨.send connection data, taken⟩ ∈ moments op entries ↔
      (⟨.send connection data, taken⟩ : Entry) ∈ entries := by
  simp [moments]

end Moments

end Device

end Infrared
