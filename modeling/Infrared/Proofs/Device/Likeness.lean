import Infrared.Proofs.Device.Waiting
import Infrared.Proofs.Likeness

namespace Infrared

variable {ω : Type} [Platform ω]

namespace Board.Alike

variable {alike : ω → ω → Prop} {b c : Board ω} (hb : b.Alike alike c)

include hb

omit [Platform ω] in
theorem setName (name : List UInt8) :
    (c.setName name).1 = (b.setName name).1 ∧ (b.setName name).2.Alike alike (c.setName name).2 := by
  obtain ⟨hstation, hworld⟩ := hb
  simp only [Board.setName]
  split
  · exact ⟨rfl, .on hstation hworld⟩
  · exact ⟨rfl, .on hstation hworld⟩

omit [Platform ω] in
theorem generateName (chip : UInt32) :
    (c.generateName chip).1 = (b.generateName chip).1 ∧
      (b.generateName chip).2.Alike alike (c.generateName chip).2 := by
  obtain ⟨hstation, hworld⟩ := hb
  simp only [Board.generateName]
  split
  · exact ⟨rfl, .on hstation hworld⟩
  · exact ⟨rfl, .on hstation hworld⟩

omit [Platform ω] in
theorem packBeacon : b.packBeacon.2.Alike alike c.packBeacon.2 := by
  obtain ⟨hstation, hworld⟩ := hb
  exact .on hstation hworld

theorem shutDown (h : Platform.Likeness alike) :
    (Device.View.shutDown b).Alike alike (Device.View.shutDown c) := by
  obtain ⟨hstation, hworld⟩ := hb
  exact .on hstation (h.perform (h.perform hworld .disarm) .shutdown)

end Board.Alike

namespace Device

/-- Whether an operation keeps surroundings alike that are alike. -/
def Operation.Respects (alike : Traced ω → Traced ω → Prop) : Operation ω → Prop
  | .surroundings f =>
    ∀ t u : Traced ω, alike t u → alike ⟨f t.world, t.history⟩ ⟨f u.world, u.history⟩
  | _ => True

/-- Whether two devices show the same of themselves, whatever is around them. -/
structure Resembles (d e : Device (Traced ω)) : Prop where
  label_eq : e.session.label = d.session.label
  connection_eq : e.session.connection? = d.session.connection?
  name_eq : e.board.name = d.board.name
  beacon_eq : e.board.beacon = d.board.beacon
  listener_eq : e.board.listener = d.board.listener
  running_eq : e.running = d.running
  pending_eq : e.pending = d.pending

namespace View

/-- Whether two views differ at most in boards that are alike. -/
inductive Alike (alike : Traced ω → Traced ω → Prop) (v : View (Traced ω)) : View (Traced ω) → Prop
  | on {board : Board (Traced ω)} (hboard : v.board.Alike alike board) :
    Alike alike v { v with board := board }

namespace Alike

variable {alike : Traced ω → Traced ω → Prop} {v u : View (Traced ω)}

omit [Platform ω] in
theorem board (hvu : v.Alike alike u) : v.board.Alike alike u.board := by
  obtain ⟨hboard⟩ := hvu
  exact hboard

omit [Platform ω] in
theorem resembles {d e : Device (Traced ω)} (hvu : v.Alike alike u) (hd : d.Shows v)
    (he : e.Shows u) : d.Resembles e := by
  obtain ⟨hboard⟩ := hvu
  have hname : e.board.name = d.board.name ∧ e.board.beacon = d.board.beacon ∧
      e.board.listener = d.board.listener := by
    rw [hd.board_eq, he.board_eq]
    obtain ⟨-, -⟩ := hboard
    exact ⟨rfl, rfl, rfl⟩
  refine ⟨?_, ?_, hname.1, hname.2.1, hname.2.2, ?_, ?_⟩
  · exact he.session_shows.label_eq.trans hd.session_shows.label_eq.symm
  · exact he.session_shows.connection?_eq.trans hd.session_shows.connection?_eq.symm
  · exact he.running_eq.trans hd.running_eq.symm
  · exact he.pending_eq.trans hd.pending_eq.symm

omit [Platform ω] in
theorem after (hvu : v.Alike alike u) {x y : Session.Progress × Session.View × Board (Traced ω)}
    (hxy : Session.View.Accords alike x y) : (v.after x).Alike alike (u.after y) := by
  obtain ⟨-⟩ := hvu
  obtain ⟨hprogress, hview, hboard⟩ := hxy
  simp only [View.after, hprogress, hview]
  exact .on hboard

variable (h : Platform.Likeness alike)

include h

theorem start (hvu : v.Alike alike u) :
    u.start.1 = v.start.1 ∧ v.start.2.Alike alike u.start.2 := by
  obtain @⟨board, hboard⟩ := hvu
  have hpacked := hboard.packBeacon
  simp only [View.start]
  split
  · exact ⟨rfl, .on hboard⟩
  · generalize v.board.packBeacon.2 = b, board.packBeacon.2 = c at hpacked
    obtain @⟨station, world, hstation, hworld⟩ := hpacked
    have hanswer : (Platform.listen v.config.port world).1 =
        (Platform.listen v.config.port b.world).1 := h.answer_eq hworld _
    have hlistened : alike (Platform.listen v.config.port b.world).2
        (Platform.listen v.config.port world).2 := h.perform hworld _
    rcases hb : Platform.listen v.config.port b.world with ⟨accepted, w⟩
    rcases hc : Platform.listen v.config.port world with ⟨accepted', u⟩
    rw [hb, hc] at hanswer hlistened
    dsimp only at hanswer hlistened
    subst hanswer
    dsimp only
    cases accepted' with
    | true => exact ⟨rfl, .on (.on hstation (h.perform hlistened _))⟩
    | false => exact ⟨rfl, .on (.on hstation hlistened)⟩

theorem stop (hvu : v.Alike alike u) : v.stop.Alike alike u.stop := by
  obtain ⟨hboard⟩ := hvu
  simp only [View.stop]
  split
  · cases v.session.connection? with
    | some connection => exact .on ((hboard.dismiss h connection).shutDown h)
    | none => exact .on (hboard.shutDown h)
  · exact .on hboard

theorem connect (hvu : v.Alike alike u) (connection : Connection) :
    (v.connect connection).Alike alike (u.connect connection) := by
  obtain ⟨hboard⟩ := hvu
  simp only [View.connect]
  split
  · exact .on hboard
  · exact .on (hboard.tell h (.close connection))

theorem runPending (hvu : v.Alike alike u) :
    u.runPending.1 = v.runPending.1 ∧ v.runPending.2.Alike alike u.runPending.2 := by
  obtain ⟨hboard⟩ := hvu
  simp only [View.runPending]
  split
  · refine ⟨rfl, ?_⟩
    have hidle : Alike alike { v with pending := false } { v with board := _, pending := false } :=
      .on hboard
    exact hidle.after (Session.View.alike_run h hboard v.config v.session)
  · exact ⟨rfl, .on hboard⟩

theorem handle (hvu : v.Alike alike u) (event : Event) :
    (v.handle event).Alike alike (u.handle event) := by
  obtain @⟨board, hboard⟩ := hvu
  have hcurrent (connection : Connection) :
      View.isCurrent { v with board := board } connection = v.isCurrent connection := rfl
  cases event with
  | connect connection => exact connect h (.on hboard) connection
  | receive connection data =>
      simp only [View.handle, hcurrent]
      split
      · exact after (.on hboard) (Session.View.alike_receive h hboard v.config data v.session)
      · exact .on hboard
  | sent connection =>
      simp only [View.handle, hcurrent]
      split
      · exact after (.on hboard) (Session.View.alike_sent h hboard v.config v.session)
      · exact .on hboard
  | disconnect connection =>
      simp only [View.handle, hcurrent]
      split
      · exact .on (hboard.resetStation h)
      · exact .on hboard
  | edge => exact after (.on hboard) (Session.View.alike_edge h hboard v.config v.session)
  | timer =>
      obtain ⟨hstation, hworld⟩ := hboard
      exact .on (.on hstation (h.tellAll hworld v.board.beacon.tickCalls))

/-- What happens to two views that are alike comes to the same, and leaves them so. -/
theorem perform (hvu : v.Alike alike u) {op : Operation ω} (hop : op.Respects alike) :
    (u.perform op).1 = (v.perform op).1 ∧ (v.perform op).2.Alike alike (u.perform op).2 := by
  cases op with
  | start =>
      obtain ⟨hresult, hstart⟩ := hvu.start h
      exact ⟨congrArg Outcome.result hresult, hstart⟩
  | stop => exact ⟨rfl, hvu.stop h⟩
  | runPending =>
      obtain ⟨hran, hnext⟩ := hvu.runPending h
      exact ⟨congrArg Outcome.ran hran, hnext⟩
  | handle event => exact ⟨rfl, hvu.handle h event⟩
  | setListener =>
      obtain ⟨⟨hstation, hworld⟩⟩ := hvu
      exact ⟨rfl, .on (.on hstation hworld)⟩
  | setName name =>
      obtain ⟨hboard⟩ := hvu
      obtain ⟨hresult, hnamed⟩ := hboard.setName name
      exact ⟨congrArg Outcome.result hresult, .on hnamed⟩
  | generateName chip =>
      obtain ⟨hboard⟩ := hvu
      obtain ⟨hresult, hnamed⟩ := hboard.generateName chip
      exact ⟨congrArg Outcome.result hresult, .on hnamed⟩
  | surroundings f =>
      obtain ⟨⟨hstation, hworld⟩⟩ := hvu
      exact ⟨rfl, .on (.on hstation (hop _ _ hworld))⟩

theorem run (hvu : v.Alike alike u) {ops : List (Operation ω)}
    (hops : ∀ op ∈ ops, op.Respects alike) :
    (u.run ops).1 = (v.run ops).1 ∧ (v.run ops).2.Alike alike (u.run ops).2 := by
  induction ops generalizing v u with
  | nil => exact ⟨rfl, hvu⟩
  | cons op ops ih =>
      obtain ⟨houtcome, hnext⟩ := hvu.perform h (hops op List.mem_cons_self)
      obtain ⟨houtcomes, hlast⟩ := ih hnext fun other hother => hops other (List.mem_cons_of_mem _ hother)
      exact ⟨by rw [View.run, View.run, houtcome, houtcomes], hlast⟩

end Alike

end View

end Device

end Infrared
