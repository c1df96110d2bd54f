import Infrared.Proofs.BoardCalls

/-!
Boards that nobody can tell apart. Their worlds may differ in what no call is answered by, and their stations in
what only an armed capture looks at. Main statement: a session does the same with either of two such boards, and
leaves boards that are alike again (`Session.View.alike_respond`, `alike_run`, `alike_receive`, `alike_sent`,
`alike_edge`).
-/

namespace Infrared

variable {ω : Type} [Platform ω]

/-- Whether worlds that are alike answer every call alike, and stay alike through it. -/
structure Platform.Likeness (alike : ω → ω → Prop) : Prop where
  answer_eq : ∀ {w u}, alike w u → ∀ call, (perform call u).1 = (perform call w).1
  perform : ∀ {w u}, alike w u → ∀ call, alike (perform call w).2 (perform call u).2
  patience_eq : ∀ {w u}, alike w u → patience u = patience w

namespace Platform

theorem likeness_eq : Likeness (@Eq ω) := by
  refine ⟨?_, ?_, ?_⟩
  · rintro w u rfl call
    rfl
  · rintro w u rfl call
    rfl
  · rintro w u rfl
    rfl

namespace Likeness

variable {alike : ω → ω → Prop} {w u : ω}

theorem tellAll (h : Likeness alike) (hwu : alike w u) (calls : List Call) :
    alike (Platform.tellAll calls w) (Platform.tellAll calls u) := by
  induction calls generalizing w u with
  | nil => exact hwu
  | cons call calls ih => exact ih (h.perform hwu call)

theorem sample (h : Likeness alike) (hwu : alike w u) (pin : UInt8) :
    (Platform.sample pin u).1 = (Platform.sample pin w).1 ∧
      alike (Platform.sample pin w).2 (Platform.sample pin u).2 := by
  have hlevel := h.perform hwu (.level pin)
  refine ⟨Prod.ext ?_ ?_, h.perform hlevel .clock⟩
  · exact h.answer_eq hwu (.level pin)
  · exact h.answer_eq hlevel .clock

theorem record (h : Likeness alike) (hwu : alike w u) (s : Station) (budget : Nat)
    (r : Station.Recording) :
    (s.record budget r u).1 = (s.record budget r w).1 ∧
      (s.record budget r u).2.1 = (s.record budget r w).2.1 ∧
      alike (s.record budget r w).2.2 (s.record budget r u).2.2 := by
  induction budget generalizing r w u with
  | zero => exact ⟨rfl, rfl, hwu⟩
  | succ budget ih =>
      obtain ⟨hsample, hnext⟩ := h.sample hwu s.pin
      rw [Station.record_succ, Station.record_succ, hsample]
      split
      · exact ⟨rfl, rfl, hnext⟩
      · exact ih hnext _

theorem capture (h : Likeness alike) (hwu : alike w u) {s : Station} (harmed : s.armed = true)
    (store : Buffer) :
    ∃ report station pulses after after',
      s.capture store w = (some report, station, pulses, after) ∧
        s.capture store u = (some report, station, pulses, after') ∧ alike after after' := by
  obtain ⟨hsample, hnext⟩ := h.sample (h.perform hwu .disableInterrupts) s.pin
  have hpatience := h.patience_eq hnext
  rw [Station.capture_of_armed harmed, Station.capture_of_armed harmed]
  obtain ⟨hending, hrecording, hworld⟩ := h.record hnext s
    (Platform.patience (Platform.sample s.pin (Platform.perform .disableInterrupts w).2).2)
    ⟨(Platform.sample s.pin (Platform.perform .disableInterrupts w).2).1.2,
      (Platform.sample s.pin (Platform.perform .disableInterrupts w).2).1.2,
      (Platform.sample s.pin (Platform.perform .disableInterrupts w).2).1.1, s.cursor, store.reset⟩
  refine ⟨_, _, _, _, _, rfl, ?_, hworld⟩
  simp only [Platform.tell, hsample, hpatience, hending, hrecording]

end Likeness

end Platform

/-- Whether two stations are the same, but for what is left of operations that are over. -/
structure Station.Alike (s t : Station) : Prop where
  pulseWidth_eq : t.pulseWidth = s.pulseWidth
  signalTimeout_eq : t.signalTimeout = s.signalTimeout
  pulseTimeout_eq : t.pulseTimeout = s.pulseTimeout
  eq_or_disarmed : t = s ∨ s.armed = false ∧ t.armed = false

namespace Station.Alike

variable {s t : Station}

omit [Platform ω] in
theorem armed_eq (h : s.Alike t) : t.armed = s.armed := by
  rcases h.eq_or_disarmed with rfl | ⟨hs, ht⟩
  · rfl
  · rw [hs, ht]

omit [Platform ω] in
theorem refl (s : Station) : s.Alike s :=
  ⟨rfl, rfl, rfl, .inl rfl⟩

theorem transmit_eq (h : s.Alike t) (pin : UInt8) (frequency : UInt32) (pulses : List UInt8)
    (world : ω) : t.transmit pin frequency pulses world = s.transmit pin frequency pulses world := by
  have hcapacity : t.capacity pulses.length = s.capacity pulses.length := by
    rw [Station.capacity, Station.capacity, h.pulseWidth_eq]
  have hdurations : t.durations pulses = s.durations pulses := by
    rw [durations, durations, hcapacity, h.pulseWidth_eq]
  simp only [Station.transmit, hcapacity, hdurations, h.pulseWidth_eq, h.signalTimeout_eq,
    h.pulseTimeout_eq, h.armed_eq]

theorem armCapture_eq (h : s.Alike t) (pin : UInt8) (world : ω) :
    t.armCapture pin world = s.armCapture pin world := by
  simp only [Station.armCapture, h.pulseWidth_eq, h.signalTimeout_eq, h.pulseTimeout_eq]

end Station.Alike

/-- Whether two boards are alike: the worlds and the stations are, and all else is the same. -/
inductive Board.Alike (alike : ω → ω → Prop) (b : Board ω) : Board ω → Prop
  | on {station : Station} {world : ω} (hstation : b.station.Alike station)
      (hworld : alike b.world world) : Alike alike b { b with station := station, world := world }

namespace Board.Alike

variable {alike : ω → ω → Prop} {b c : Board ω}

omit [Platform ω] in
theorem world (hb : b.Alike alike c) : alike b.world c.world := by
  obtain ⟨-, hworld⟩ := hb
  exact hworld

omit [Platform ω] in
theorem station (hb : b.Alike alike c) : b.station.Alike c.station := by
  obtain ⟨hstation, -⟩ := hb
  exact hstation

variable (h : Platform.Likeness alike)

include h

theorem tell (hb : b.Alike alike c) (call : Call) : (b.tell call).Alike alike (c.tell call) := by
  obtain ⟨hstation, hworld⟩ := hb
  exact .on hstation (h.perform hworld call)

theorem resetStation (hb : b.Alike alike c) : b.resetStation.Alike alike c.resetStation := by
  obtain ⟨hstation, hworld⟩ := hb
  refine .on ⟨hstation.pulseWidth_eq, hstation.signalTimeout_eq, hstation.pulseTimeout_eq, ?_⟩
    (h.perform hworld .disableInterrupts)
  exact .inr ⟨rfl, rfl⟩

theorem dismiss (hb : b.Alike alike c) (connection : Connection) :
    (Session.View.dismiss connection b).Alike alike (Session.View.dismiss connection c) :=
  (hb.tell h (.close connection)).resetStation h

theorem transmit (hb : b.Alike alike c) (frequency : UInt32) (pulses : List UInt8) :
    (b.transmit frequency pulses).Alike alike (c.transmit frequency pulses) := by
  obtain ⟨hstation, hworld⟩ := hb
  simp only [Board.transmit, hstation.transmit_eq]
  exact .on (.refl _) (h.tellAll hworld _)

theorem armCapture (hb : b.Alike alike c) : b.armCapture.Alike alike c.armCapture := by
  obtain ⟨hstation, hworld⟩ := hb
  simp only [Board.armCapture, hstation.armCapture_eq]
  exact .on (.refl _) (h.tellAll hworld _)

/-- A capture over a store comes to the same report and to the same pulses. -/
theorem capture (hb : b.Alike alike c) (store : Buffer) :
    (c.capture store).1 = (b.capture store).1 ∧
      (b.capture store).2.1.Alike alike (c.capture store).2.1 ∧
      (c.capture store).2.2 = (b.capture store).2.2 := by
  cases harmed : b.station.armed with
  | false =>
      have harmed' : c.station.armed = false := hb.station.armed_eq.trans harmed
      rw [Board.capture_of_not_armed harmed, Board.capture_of_not_armed harmed']
      exact ⟨rfl, hb.tell h .disableInterrupts, rfl⟩
  | true =>
      obtain ⟨hstation, hworld⟩ := hb
      rcases hstation.eq_or_disarmed with rfl | ⟨hoff, -⟩
      · obtain ⟨report, station, pulses, after, after', hb, hc, hafter⟩ := h.capture hworld harmed store
        simp only [Board.capture, hb, hc]
        exact ⟨trivial, .on (.refl station) hafter, trivial⟩
      · simp [harmed] at hoff

theorem announce (hb : b.Alike alike c) (ssid password : List UInt8) :
    (b.announce ssid password).Alike alike (c.announce ssid password) := by
  have htell := hb.tell h (.configured b.name.filled ssid password)
  obtain ⟨hstation, hworld⟩ := hb
  simp only [Board.announce]
  split
  · exact htell
  · exact .on hstation hworld

omit [Platform ω] h in
theorem rename (hb : b.Alike alike c) (name : List UInt8) :
    (b.rename name).2.Alike alike (c.rename name).2 := by
  obtain ⟨hstation, hworld⟩ := hb
  exact .on hstation hworld

theorem apply (hb : b.Alike alike c) (reply : Reply) (kept : List UInt8) :
    (Session.View.apply reply kept b).Alike alike (Session.View.apply reply kept c) := by
  cases reply with
  | sent => exact hb
  | captured count => exact hb
  | configured name ssid password =>
      exact (hb.rename (name.of kept)).announce h (ssid.of kept) (password.of kept)

end Board.Alike

namespace Session.View

/-- Whether two boards were left alike, with nothing else to tell them apart. -/
structure Accords (alike : ω → ω → Prop) (x y : Progress × View × Board ω) : Prop where
  progress_eq : y.1 = x.1
  view_eq : y.2.1 = x.2.1
  board : x.2.2.Alike alike y.2.2

variable {alike : ω → ω → Prop} {b c : Board ω} (h : Platform.Likeness alike)

include h

theorem alike_respond (hb : b.Alike alike c) (config : Config) (connection : Connection)
    (reply : Reply) (kept : List UInt8) (sent : Nat) :
    Accords alike (respond config connection reply kept sent b)
      (respond config connection reply kept sent c) := by
  have hanswer : (Platform.send connection (piece config reply kept sent) c.world).1 =
      (Platform.send connection (piece config reply kept sent) b.world).1 := h.answer_eq hb.world _
  have hworld : alike (Platform.send connection (piece config reply kept sent) b.world).2
      (Platform.send connection (piece config reply kept sent) c.world).2 := h.perform hb.world _
  have hboard {w u : ω} (hwu : alike w u) :
      Board.Alike alike { b with world := w } { c with world := u } := by
    obtain ⟨hstation, -⟩ := hb
    exact .on hstation hwu
  simp only [respond]
  split
  · exact ⟨rfl, rfl, (hb.apply h reply kept).dismiss h connection⟩
  · rcases hb' : Platform.send connection (piece config reply kept sent) b.world with ⟨taken, w⟩
    rcases hc' : Platform.send connection (piece config reply kept sent) c.world with ⟨taken', u⟩
    rw [hb', hc'] at hanswer hworld
    dsimp only at hanswer hworld
    subst hanswer
    cases taken' with
    | true => exact ⟨rfl, rfl, hboard hworld⟩
    | false => exact ⟨rfl, rfl, (hboard hworld).dismiss h connection⟩

theorem alike_run (hb : b.Alike alike c) (config : Config) (v : View) :
    Accords alike (v.run config b) (v.run config c) := by
  cases v with
  | process connection request kept =>
      cases request with
      | send frequency => exact alike_respond h (hb.transmit h frequency kept) config _ _ _ _
      | config name ssid password => exact alike_respond h hb config _ _ _ _
      | receive report =>
          cases report with
          | some report => exact alike_respond h hb config _ _ _ _
          | none =>
              refine ⟨rfl, rfl, ?_⟩
              simp only [run, hb.station.armed_eq]
              split
              · exact hb
              · exact hb.armCapture h
  | ready => exact ⟨rfl, rfl, hb⟩
  | request connection received => exact ⟨rfl, rfl, hb⟩
  | response connection reply kept sent => exact ⟨rfl, rfl, hb⟩

theorem alike_receive (hb : b.Alike alike c) (config : Config) (data : List UInt8) (v : View) :
    Accords alike (v.receive config data b) (v.receive config data c) := by
  cases v with
  | request connection received =>
      simp only [receive]
      split
      · exact ⟨rfl, rfl, hb.dismiss h connection⟩
      · split
        · exact ⟨rfl, rfl, hb⟩
        · exact ⟨rfl, rfl, hb⟩
        · exact ⟨rfl, rfl, hb.dismiss h connection⟩
  | ready => exact ⟨rfl, rfl, hb⟩
  | process connection request kept => exact ⟨rfl, rfl, hb⟩
  | response connection reply kept sent => exact ⟨rfl, rfl, hb⟩

theorem alike_sent (hb : b.Alike alike c) (config : Config) (v : View) :
    Accords alike (v.sent config b) (v.sent config c) := by
  cases v with
  | response connection reply kept sent => exact alike_respond h hb config connection reply kept sent
  | ready => exact ⟨rfl, rfl, hb⟩
  | request connection received => exact ⟨rfl, rfl, hb⟩
  | process connection request kept => exact ⟨rfl, rfl, hb⟩

theorem alike_edge (hb : b.Alike alike c) (config : Config) (v : View) :
    Accords alike (v.edge config b) (v.edge config c) := by
  obtain ⟨hreport, hboard, hstore⟩ := hb.capture h (Buffer.new config.scratchLength)
  rcases hb' : b.capture (Buffer.new config.scratchLength) with ⟨report, b', store⟩
  rcases hc' : c.capture (Buffer.new config.scratchLength) with ⟨report', c', store'⟩
  rw [hb', hc'] at hreport hboard hstore
  dsimp only at hreport hboard hstore
  subst hreport hstore
  simp only [edge, hb', hc']
  cases report' with
  | none => exact ⟨rfl, rfl, hboard⟩
  | some report =>
      dsimp only
      split
      · exact ⟨rfl, rfl, hboard⟩
      · exact ⟨rfl, rfl, hboard⟩

end Session.View

end Infrared
