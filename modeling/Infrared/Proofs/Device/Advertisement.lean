import Infrared.Proofs.Device.Adoption
import Infrared.Proofs.Device.Effect
import Infrared.Proofs.Device.Service

namespace Infrared

variable {ω : Type}

theorem Name.length_ofChip (chip : UInt32) : (ofChip chip).length = 7 := rfl

namespace Board

/-- Whether the payload of a board announces the name in the slot, if it announces any. -/
def Advertises (config : Config) (b : Board ω) : Prop :=
  b.beacon.payload.data = [] ∨
    b.beacon.payload.data = Beacon.datagram config.swapped config.port b.name.filled

instance (config : Config) (b : Board ω) : Decidable (b.Advertises config) :=
  inferInstanceAs (Decidable (_ ∨ _))

/-- Whether the payload of a board announces the name in the slot. -/
def Announces (config : Config) (b : Board ω) : Prop :=
  b.beacon.payload.data = Beacon.datagram config.swapped config.port b.name.filled

variable {config : Config} {b : Board ω}

theorem Announces.advertises (h : b.Announces config) : b.Advertises config :=
  .inr h

theorem announces_rename (h : b.fittings = .of config) (hvalid : config.Valid) (name : List UInt8) :
    (b.rename name).2.Announces config := by
  have hsame := b.fittings_rename name
  rw [rename, fittings_packBeacon] at hsame
  exact data_packBeacon (hsame.trans h) hvalid

theorem announces_generateName (h : b.fittings = .of config) (hvalid : config.Valid) {chip : UInt32}
    (hfits : (Name.ofChip chip).length ≤ b.name.capacity) :
    (b.generateName chip).2.Announces config := by
  have hleft : (Name.ofChip chip).length ≤ b.name.reset.left := by rwa [Buffer.left_reset]
  have hgenerate : b.generateName chip =
      packBeacon { b with name := b.name.reset.append (Name.ofChip chip) } := by
    simp only [generateName, Name.generate, Buffer.extend_of_le _ hleft]
  have hsame := b.fittings_generateName chip
  rw [hgenerate] at hsame ⊢
  rw [fittings_packBeacon] at hsame
  exact data_packBeacon (hsame.trans h) hvalid

/-- A generated name that does not fit empties the slot, but not the payload. -/
theorem generateName_of_lt {chip : UInt32} (h : b.name.capacity < (Name.ofChip chip).length) :
    b.generateName chip = (.error .bufferTooSmall, { b with name := b.name.reset }) := by
  have hleft : b.name.reset.left < (Name.ofChip chip).length := by rwa [Buffer.left_reset]
  simp only [generateName, Name.generate, Buffer.extend_of_lt _ hleft]

end Board

def Call.IsBroadcast : Call → Prop
  | broadcast _ _ => True
  | _ => False

/-- Whether a history goes on with calls of which none is a broadcast. -/
def Traced.Hushed (t u : Traced ω) : Prop :=
  ∃ calls, Traced.Adds calls t u ∧ ∀ call ∈ calls, ¬call.IsBroadcast

namespace Traced.Hushed

variable {t u v : Traced ω}

theorem of_eq (h : u = t) : Hushed t u :=
  ⟨[], h ▸ Adds.nil, by simp⟩

theorem of_singleton {call : Call} (hadds : Adds [call] t u) (h : ¬call.IsBroadcast) : Hushed t u :=
  ⟨[call], hadds, List.forall_mem_singleton.mpr h⟩

/-- A datagram is a call for the service. -/
theorem of_attends (h : Attends t u) : Hushed t u := by
  obtain ⟨calls, hadds, hcalls⟩ := h
  refine ⟨calls, hadds, fun call hcall hbroadcast => hcalls call hcall ?_⟩
  cases call with
  | broadcast port data => trivial
  | _ => exact absurd hbroadcast id

theorem trans (h : Hushed t u) (h' : Hushed u v) : Hushed t v := by
  obtain ⟨calls, hadds, hcalls⟩ := h
  obtain ⟨more, hadds', hmore⟩ := h'
  refine ⟨calls ++ more, hadds.trans hadds', ?_⟩
  rw [List.forall_mem_append]
  exact ⟨hcalls, hmore⟩

variable [Platform ω]

theorem tell (t : Traced ω) {call : Call} (h : ¬call.IsBroadcast) : Hushed t (Platform.tell call t) :=
  of_singleton (Traced.adds_tell call t) h

theorem shutDown (b : Board (Traced ω)) : Hushed b.world (Device.View.shutDown b).world :=
  (tell b.world id).trans (tell _ id)

end Traced.Hushed

namespace Device

variable [Platform ω]

/-- Nothing but the timer has a device broadcast. -/
theorem View.hushed_perform (v : View (Traced ω)) {op : Operation ω} (hop : op ≠ .handle .timer) :
    Traced.Hushed v.board.world (v.perform op).2.board.world := by
  cases op with
  | start =>
      have hlisten : Traced.Hushed v.board.world
          (Platform.listen v.config.port v.board.packBeacon.2.world).2 :=
        .of_singleton (Traced.adds_listen _ _) id
      simp only [View.perform, View.start]
      split
      · exact .of_eq rfl
      · cases hanswer : Platform.listen v.config.port v.board.packBeacon.2.world with
        | mk accepted world =>
            rw [hanswer] at hlisten
            cases accepted with
            | true => exact hlisten.trans (.tell world id)
            | false => exact hlisten
  | stop =>
      simp only [View.perform, View.stop]
      split
      · cases v.session.connection? with
        | some connection =>
            exact (Traced.Hushed.of_attends (.dismiss connection v.board)).trans (.shutDown _)
        | none => exact .shutDown v.board
      · exact .of_eq rfl
  | _ => exact .of_attends (v.attends_perform (by simp) (by simp) hop).1

/-- A datagram goes out only when the timer runs out, and it is the payload. -/
theorem Follows.eq_payload_of_broadcast {d : Device (Traced ω)} {v : View (Traced ω)} (h : d.Follows v)
    {op : Operation ω} {entry : Entry} (hentry : entry ∈ d.added op) {port : UInt16} {data : List UInt8}
    (hcall : entry.call = .broadcast port data) :
    op = .handle .timer ∧ data ≠ [] ∧ data = d.board.beacon.payload.data := by
  have hmem (calls : List Call) (hadds : Traced.Adds calls v.board.world
      (v.perform op).2.board.world) : .broadcast port data ∈ calls := by
    rw [← h.map_call_added hadds, ← hcall]
    exact List.mem_map_of_mem hentry
  rw [h.shows.board_eq]
  by_cases hop : op = .handle .timer
  · subst hop
    have htick := hmem _ (Traced.adds_tellAll v.board.beacon.tickCalls v.board.world)
    rw [Beacon.tickCalls] at htick
    split at htick
    · rw [List.mem_append, List.mem_singleton] at htick
      rcases htick with htick | htick
      · split at htick
        · simp at htick
        · rename_i hsome
          rw [List.mem_singleton, Call.broadcast.injEq] at htick
          refine ⟨rfl, ?_, htick.2⟩
          rw [htick.2]
          exact fun hnil => hsome (by rw [hnil]; rfl)
      · simp at htick
    · simp at htick
  · obtain ⟨calls, hadds, hcalls⟩ := v.hushed_perform hop
    exact absurd trivial (hcalls _ (hmem calls hadds))

/-- Whether an operation leaves a device with the name and with the payload that it had. -/
structure KeepsName (d e : Device (Traced ω)) : Prop where
  name_eq : e.board.name.filled = d.board.name.filled
  payload_eq : e.board.beacon.payload.data = d.board.beacon.payload.data

variable {config : Config} {d : Device (Traced ω)} {v : View (Traced ω)}

omit [Platform ω] in
theorem KeepsName.advertises {e : Device (Traced ω)} (h : KeepsName d e)
    (hd : d.board.Advertises config) : e.board.Advertises config := by
  rwa [Board.Advertises, h.payload_eq, h.name_eq]

theorem Reachable.valid (h : Reachable config d) : config.Valid := by
  obtain ⟨v, hfollows, rfl⟩ := h.exists_follows
  exact hfollows.keeps.valid

theorem Reachable.fittings_board (h : Reachable config d) : d.board.fittings = .of config := by
  obtain ⟨v, hfollows, -, hfittings, -⟩ := h.exists_tracks
  rw [hfollows.shows.board_eq]
  exact hfittings

theorem Reachable.capacity_name (h : Reachable config d) :
    d.board.name.capacity = config.nameLengthMax :=
  congrArg Board.Fittings.nameCapacity h.fittings_board

/-- What one operation does to the name and the payload: it makes the payload for the name that it leaves, or
leaves both as they were, or has a name generated that does not fit. -/
theorem Reachable.announces_or_keepsName (h : Reachable config d) (op : Operation ω) :
    (d.perform op).2.board.Announces config ∨ KeepsName d (d.perform op).2 ∨
      ∃ chip, op = .generateName chip ∧ config.nameLengthMax < (Name.ofChip chip).length := by
  have hfittings := h.fittings_board
  have hvalid := h.valid
  have hother (hop : ¬op.Renames) : (d.perform op).2.board.Announces config ∨
      KeepsName d (d.perform op).2 := by
    obtain ⟨v, hfollows, rfl, hv, hstaged⟩ := h.exists_tracks
    rcases hfollows.unaltered_or_commits op with hsame | ⟨connection, a, hcommits⟩
    · exact .inr ⟨hsame.name_eq hop, hsame.payload_eq hop⟩
    · obtain ⟨hlength, -⟩ := hstaged connection a hcommits.staged?_eq
      have hadopts := hcommits.adopts hfollows hv hlength
      refine .inl ?_
      rw [Board.Announces, hadopts.name_eq]
      exact hadopts.payload_eq
  cases op with
  | setName name =>
      simp only [Device.perform, Device.setName, Board.setName]
      split
      · exact .inr (.inl ⟨rfl, rfl⟩)
      · exact .inl (Board.announces_rename hfittings hvalid name)
  | generateName chip =>
      rcases Nat.lt_or_ge config.nameLengthMax (Name.ofChip chip).length with hlong | hfits
      · exact .inr (.inr ⟨chip, rfl, hlong⟩)
      · rw [← h.capacity_name] at hfits
        exact .inl (Board.announces_generateName hfittings hvalid hfits)
  | start =>
      have hpacked := Board.data_packBeacon hfittings hvalid
      simp only [Device.perform, Device.start]
      split
      · exact .inr (.inl ⟨rfl, rfl⟩)
      · split
        · exact .inl hpacked
        · exact .inl hpacked
  | _ => exact (hother id).imp_right .inl

theorem Reachable.perform_generateName_of_lt (h : Reachable config d) {chip : UInt32}
    (hlong : config.nameLengthMax < (Name.ofChip chip).length) :
    d.perform (.generateName chip) = (.result (.error .bufferTooSmall),
      { d with board := { d.board with name := d.board.name.reset } }) := by
  rw [← h.capacity_name] at hlong
  simp only [Device.perform, Device.generateName, Board.generateName_of_lt hlong]

theorem Reachable.advertises_run_of_fits (h : Reachable config d) (hd : d.board.Advertises config)
    {ops : List (Operation ω)}
    (hfits : ∀ chip, .generateName chip ∈ ops → (Name.ofChip chip).length ≤ config.nameLengthMax) :
    (d.run ops).2.board.Advertises config := by
  induction ops generalizing d with
  | nil => exact hd
  | cons op ops ih =>
      refine ih (h.perform op) ?_ fun chip hchip => hfits chip (List.mem_cons_of_mem _ hchip)
      rcases h.announces_or_keepsName op with hmade | hkept | ⟨chip, rfl, hlong⟩
      · exact hmade.advertises
      · exact hkept.advertises hd
      · exact absurd hlong (Nat.not_lt.mpr (hfits chip List.mem_cons_self))

theorem Reachable.advertises_or_unnamed_run (h : Reachable config d)
    (hd : d.board.Advertises config ∨ d.board.name.filled = []) (ops : List (Operation ω)) :
    (d.run ops).2.board.Advertises config ∨ (d.run ops).2.board.name.filled = [] := by
  induction ops generalizing d with
  | nil => exact hd
  | cons op ops ih =>
      refine ih (h.perform op) ?_
      rcases h.announces_or_keepsName op with hmade | hkept | ⟨chip, rfl, hlong⟩
      · exact .inl hmade.advertises
      · exact hd.imp hkept.advertises hkept.name_eq.trans
      · rw [h.perform_generateName_of_lt hlong]
        exact .inr (Buffer.filled_reset _)

/-- In a run in which no name is generated that does not fit, the payload announces the name that the device
has, or nothing, and each datagram announces the name that the device has while it goes out. In every run the
payload announces the name, or nothing, or the device has no name. A generated name that does not fit leaves no
name and the payload of the one before. -/
theorem advertises_run (hvalid : config.validate = .ok ()) (world : ω) (ops : List (Operation ω)) :
    let d : Device (Traced ω) := ((fresh config ⟨world, []⟩).run ops).2
    ((∀ chip, .generateName chip ∈ ops → (Name.ofChip chip).length ≤ config.nameLengthMax) →
      d.board.Advertises config ∧
        ∀ op, ∀ entry ∈ d.added op, ∀ port data, entry.call = .broadcast port data →
          data = Beacon.datagram config.swapped config.port d.board.name.filled ∧
            (d.perform op).2.board.name.filled = d.board.name.filled) ∧
      (d.board.Advertises config ∨ d.board.name.filled = []) ∧
      ∀ chip, config.nameLengthMax < (Name.ofChip chip).length →
        (d.perform (.generateName chip)).1 = .result (.error .bufferTooSmall) ∧
          (d.perform (.generateName chip)).2.board.name.filled = [] ∧
          (d.perform (.generateName chip)).2.board.beacon.payload.data = d.board.beacon.payload.data := by
  intro d
  have hfresh : Reachable config (fresh config ⟨world, []⟩ : Device (Traced ω)) :=
    reachable_fresh hvalid world
  have hnone : (fresh config ⟨world, []⟩ : Device (Traced ω)).board.Advertises config :=
    .inl (Buffer.filled_new _)
  have hd : Reachable config d := hfresh.run ops
  refine ⟨fun hfits => ?_, hfresh.advertises_or_unnamed_run (.inl hnone) ops, fun chip hlong => ?_⟩
  · have hadvertises : d.board.Advertises config := hfresh.advertises_run_of_fits hnone hfits
    refine ⟨hadvertises, fun op entry hentry port data hcall => ?_⟩
    obtain ⟨v, hfollows, -⟩ := hd.exists_follows
    obtain ⟨rfl, hsome, hdata⟩ := hfollows.eq_payload_of_broadcast hentry hcall
    refine ⟨?_, rfl⟩
    rcases hadvertises with hempty | hname
    · exact absurd (hdata.trans hempty) hsome
    · exact hdata.trans hname
  · rw [hd.perform_generateName_of_lt hlong]
    exact ⟨rfl, Buffer.filled_reset _, rfl⟩

/-- The name of a chip that fits is announced, in place of the one that was set before. -/
theorem advertises_run_generateName :
    let config : Config := { nameLengthMax := 7 }
    let ops : List (Operation Bench) := [.setName [65], .start, .generateName 0x12345678]
    let d : Device (Traced Bench) := ((fresh config ⟨{}, []⟩).run ops).2
    config.validate = .ok () ∧ d.board.beacon.payload.data ≠ [] ∧ d.board.Advertises config ∧
      ∀ op, ∀ entry ∈ d.added op, ∀ port data, entry.call = .broadcast port data →
        data = Beacon.datagram config.swapped config.port d.board.name.filled ∧
          (d.perform op).2.board.name.filled = d.board.name.filled := by
  intro config ops
  have hvalid : config.validate = .ok () := rfl
  obtain ⟨hannounced, -, -⟩ := advertises_run hvalid ({} : Bench) ops
  exact ⟨hvalid, by decide +kernel, hannounced fun chip _ => Nat.le_of_eq (Name.length_ofChip chip)⟩

/-- After a generated name that did not fit the device has no name, and goes on to announce the one before. -/
theorem not_advertises_of_generateName :
    let config : Config := { nameLengthMax := 4 }
    let d : Device (Traced Bench) :=
      ((fresh config ⟨{}, []⟩).run [.setName [97, 98, 99, 100], .start, .generateName 1]).2
    config.validate = .ok () ∧ d.board.name.filled = [] ∧ ¬d.board.Advertises config ∧
      Call.broadcast 8888 (Beacon.datagram config.swapped config.port [97, 98, 99, 100]) ∈
        (d.added (.handle .timer)).map (·.call) := by
  intro config d
  exact ⟨rfl, by decide +kernel, by decide +kernel, by decide +kernel⟩

end Device

end Infrared
