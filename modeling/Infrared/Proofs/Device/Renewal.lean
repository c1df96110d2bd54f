import Infrared.Proofs.Device.Adoption
import Infrared.Proofs.Device.Likeness

namespace Infrared.Device

variable {ω : Type}

/-- The device with a new session and a new station. -/
def renewed (d : Device ω) : Device ω :=
  { d with
    session := Session.new d.config
    board := { d.board with
      station :=
        Station.new d.config.pulseWidth d.config.signalTimeout d.config.pulseTimeout } }

def View.renewed (v : View ω) : View ω :=
  { v with
    board := { v.board with
      station :=
        Station.new v.config.pulseWidth v.config.signalTimeout v.config.pulseTimeout } }

variable {d : Device (Traced ω)} {v : View (Traced ω)}

theorem Follows.disarmed_of_ready (h : d.Follows v) (hready : v.session = .ready) :
    v.pending = false ∧ v.board.station.armed = false := by
  have hwaits := h.keeps.waits
  rw [hready] at hwaits
  exact hwaits

theorem Follows.renewed (h : d.Follows v) (hready : v.session = .ready) :
    d.renewed.Follows v.renewed := by
  obtain ⟨hpending, harmed⟩ := h.disarmed_of_ready hready
  have hconfig := h.shows.config_eq
  refine ⟨⟨hconfig, ?_, h.shows.running_eq, h.shows.pending_eq, ?_⟩,
    ⟨h.keeps.valid, ⟨rfl, ?_⟩, ?_, h.keeps.running_of_ne_ready⟩⟩
  · rw [Device.renewed, View.renewed, hconfig, h.shows.board_eq]
  · rw [Device.renewed, View.renewed, hready, hconfig]
    exact Session.shows_new v.config
  · exact h.keeps.board_keeps.interrupts_eq.trans harmed
  · rw [View.renewed, hready]
    exact ⟨hpending, rfl⟩

/-- A new station differs from one at rest only in what is left of operations that are over. -/
theorem View.alike_renewed [Platform ω] (hfittings : v.board.fittings = .of v.config)
    (harmed : v.board.station.armed = false) : v.Alike Eq v.renewed := by
  simp only [Board.fittings, Board.Fittings.of, Board.Fittings.mk.injEq] at hfittings
  obtain ⟨hwidth, hsignal, hpulse, -⟩ := hfittings
  have hstation : v.board.station.Alike
      (Station.new v.config.pulseWidth v.config.signalTimeout v.config.pulseTimeout) :=
    ⟨hwidth.symm, hsignal.symm, hpulse.symm, .inr ⟨harmed, rfl⟩⟩
  exact .on (.on hstation rfl)

theorem Operation.respects_eq [Platform ω] (op : Operation ω) : op.Respects Eq := by
  cases op with
  | surroundings f =>
      rintro t u rfl
      rfl
  | _ => trivial

variable [Platform ω] {config : Config}

/-- Whatever conversations a device has had, and however they ended: once it waits for a connection, no run
tells it from the device with a new session and a new station. -/
theorem Reachable.run_renewed (h : Reachable config d) (hready : d.session.label = "Ready")
    (ops : List (Operation ω)) :
    (d.renewed.run ops).1 = (d.run ops).1 ∧
      (d.renewed.run ops).2.board.world = (d.run ops).2.board.world ∧
      (d.run ops).2.Resembles (d.renewed.run ops).2 := by
  obtain ⟨v, hfollows, rfl, hfittings, -⟩ := h.exists_tracks
  have hview : v.session = .ready := by
    rw [hfollows.shows.session_shows.label_eq] at hready
    cases hv : v.session with
    | ready => rfl
    | _ => simp [hv, Session.View.label] at hready
  have hrenewed := hfollows.renewed hview
  have halike := View.alike_renewed hfittings (hfollows.disarmed_of_ready hview).2
  obtain ⟨houtcomes, hlast⟩ := hfollows.run ops
  obtain ⟨houtcomes', hlast'⟩ := hrenewed.run ops
  obtain ⟨hsame, hend⟩ := halike.run Platform.likeness_eq fun op _ => op.respects_eq
  refine ⟨?_, ?_, hend.resembles hlast.shows hlast'.shows⟩
  · rw [houtcomes, houtcomes', hsame]
  · rw [hlast.shows.board_eq, hlast'.shows.board_eq]
    exact hend.board.world.symm

/-- The strings of a configuration are still in the scratch store once it took effect, and no later
conversation reads them. -/
theorem run_renewed_configured :
    let d := ((((fresh {} ⟨{}, []⟩ : Device (Traced Bench)).perform .start).2.received 7
      [[4, 0, 6, 1, 65], [1, 66, 1, 67]]).run [.runPending, .handle (.sent 7)]).2
    let ops : List (Operation Bench) :=
      [.handle (.connect 8), .handle (.receive 8 [2, 0, 0]), .runPending, .handle (.disconnect 8)]
    d.session.label = "Ready" ∧
      d.session.scratch.data = #[65, 66, 67] ∧
      (d.renewed.run ops).1 = (d.run ops).1 ∧
      (d.renewed.run ops).2.board.world = (d.run ops).2.board.world ∧
      (d.run ops).2.Resembles (d.renewed.run ops).2 := by
  intro d ops
  have hfresh : Reachable {} (fresh {} ⟨{}, []⟩ : Device (Traced Bench)) := reachable_fresh rfl _
  have hreachable : Reachable {} d :=
    (((hfresh.perform .start).received 7 [[4, 0, 6, 1, 65], [1, 66, 1, 67]]).perform
      .runPending).perform (.handle (.sent 7))
  have hready : d.session.label = "Ready" := by decide +kernel
  exact ⟨hready, by decide +kernel, hreachable.run_renewed hready ops⟩

end Infrared.Device
