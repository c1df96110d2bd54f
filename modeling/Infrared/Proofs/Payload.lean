import Infrared.Proofs.Device.Advertisement
import Infrared.Proofs.Items.Scanning

namespace Infrared.Beacon

/-- What is done with a beacon. -/
inductive Operation where
  | pack (servicePort : UInt16) (name : List UInt8)
  | start
  | stop
  /-- The timer runs out. -/
  | tick
  deriving DecidableEq, Repr

/-- Whether a name can be packed: its length has one byte, and the payload has room for it. -/
def Packs (nameLengthMax : Nat) (name : List UInt8) : Prop :=
  name.length ≤ Packet.stringLimit ∧ name.length ≤ nameLengthMax

def Operation.Packs (nameLengthMax : Nat) : Operation → Prop
  | pack _ name => Beacon.Packs nameLengthMax name
  | _ => False

instance (nameLengthMax : Nat) (name : List UInt8) : Decidable (Packs nameLengthMax name) :=
  inferInstanceAs (Decidable (_ ∧ _))

def items (servicePort : UInt16) (name : List UInt8) : List Item :=
  [.number 2 servicePort.toNat, .number 1 name.length, .text (.raw name)]

def asks (name : List UInt8) : List Ask :=
  [.number 2, .number 1, .text (.raw (List.replicate name.length 0))]

/-- What a reader asks for once it has some items. How long the name is it knows from the item before. -/
def nextAsk : List Item → Option Ask
  | [] => some (.number 2)
  | [_] => some (.number 1)
  | [_, .number _ length] => some (.text (.raw (List.replicate length 0)))
  | _ => none

theorem wire_items (swapped : Bool) (servicePort : UInt16) (name : List UInt8) :
    Item.wire swapped (items servicePort name) = datagram swapped servicePort name := by
  simp only [Item.wire, items, List.flatMap_cons, List.flatMap_nil, Item.bytes, Layout.number_one, Field.raw,
    List.append_nil, datagram, Layout.text, List.singleton_append]

theorem tells_items (servicePort : UInt16) (name : List UInt8) :
    Reader.Tells nextAsk (asks name) (items servicePort name) := by
  intro front hfront
  have hlength : front.length ≤ 3 := hfront.length_le
  rw [List.prefix_iff_eq_take.mp hfront, List.length_take]
  generalize front.length = count at hlength
  match count, hlength with
  | 0, _ => rfl
  | 1, _ => rfl
  | 2, _ => rfl
  | 3, _ => rfl

theorem forall_for (servicePort : UInt16) (name : List UInt8) :
    List.Forall₂ Ask.For (asks name) (items servicePort name) :=
  .cons rfl (.cons rfl (.cons ⟨rfl, List.length_replicate⟩ .nil))

theorem fits_of_mem_items {nameLengthMax : Nat} {name : List UInt8} (h : Packs nameLengthMax name)
    (servicePort : UInt16) : ∀ item ∈ items servicePort name, item.Fits := by
  have hlength : name.length ≤ 255 := h.1
  intro item hitem
  simp only [items, List.mem_cons, List.not_mem_nil, or_false] at hitem
  rcases hitem with rfl | rfl | rfl
  · exact ⟨by decide, servicePort.toNat_lt⟩
  · exact ⟨by decide, Nat.lt_succ_of_le hlength⟩
  · exact Nat.le_trans hlength (Nat.le_of_ble_eq_true rfl : 255 ≤ Field.Kind.raw.limit)

/-- Whether a beacon was made with the given values. -/
structure Made (port : UInt16) (interval : UInt32) (nameLengthMax : Nat) (swapped : Bool) (b : Beacon) :
    Prop where
  port_eq : b.port = port
  interval_eq : b.interval = interval
  make_eq : b.payload.make = (.writer, swapped, Packet.beaconHeadLength + nameLengthMax)

variable {ω : Type} {port : UInt16} {interval : UInt32} {nameLengthMax : Nat} {swapped : Bool} {b : Beacon}

theorem made_new (port : UInt16) (interval : UInt32) (nameLengthMax : Nat) (swapped : Bool) :
    (new port interval nameLengthMax swapped).Made port interval nameLengthMax swapped :=
  ⟨rfl, rfl, rfl⟩

namespace Made

theorem side_eq (h : b.Made port interval nameLengthMax swapped) : b.payload.side = .writer :=
  congrArg (·.1) h.make_eq

theorem swapped_eq (h : b.Made port interval nameLengthMax swapped) : b.payload.swapped = swapped :=
  congrArg (·.2.1) h.make_eq

theorem capacity_eq (h : b.Made port interval nameLengthMax swapped) :
    b.payload.capacity = Packet.beaconHeadLength + nameLengthMax :=
  congrArg (·.2.2) h.make_eq

theorem fits_iff (h : b.Made port interval nameLengthMax swapped) (name : List UInt8) :
    fits name b.payload.capacity = true ↔ Packs nameLengthMax name := by
  rw [fits, Bool.and_eq_true, decide_eq_true_eq, decide_eq_true_eq, h.capacity_eq, Nat.add_le_add_iff_left,
    Packs]

theorem exists_pack (h : b.Made port interval nameLengthMax swapped) {name : List UInt8}
    (hname : Packs nameLengthMax name) (servicePort : UInt16) :
    ∃ full, b.pack servicePort name = (.ok (), { b with payload := full }) ∧
      full.data = Item.wire swapped (items servicePort name) := by
  obtain ⟨full, hpack, hdata⟩ := exists_pack_of_fits h.side_eq ((h.fits_iff name).mpr hname) servicePort
  rw [h.swapped_eq, ← wire_items] at hdata
  exact ⟨full, hpack, hdata⟩

theorem pack_eq (h : b.Made port interval nameLengthMax swapped) {name : List UInt8}
    (hname : ¬Packs nameLengthMax name) (servicePort : UInt16) :
    b.pack servicePort name = (.error .payloadTooLarge, { b with payload := b.payload.reset }) :=
  pack_of_not_fits (Bool.eq_false_iff.mpr (mt (h.fits_iff name).mp hname)) servicePort

theorem pack (h : b.Made port interval nameLengthMax swapped) (servicePort : UInt16) (name : List UInt8) :
    (b.pack servicePort name).2.Made port interval nameLengthMax swapped := by
  have hmake := (make_pack b servicePort name).trans h.make_eq
  by_cases hname : Packs nameLengthMax name
  · obtain ⟨full, hpack, -⟩ := h.exists_pack hname servicePort
    rw [hpack] at hmake ⊢
    exact ⟨h.port_eq, h.interval_eq, hmake⟩
  · rw [h.pack_eq hname] at hmake ⊢
    exact ⟨h.port_eq, h.interval_eq, hmake⟩

theorem adds_tick [Platform ω] (h : b.Made port interval nameLengthMax swapped) (hrunning : b.running = true)
    (hsome : b.payload.data ≠ []) (now : Traced ω) :
    Traced.Adds [.broadcast port b.payload.data, .arm interval] now (b.tick now) := by
  have hcalls : b.tickCalls = [.broadcast port b.payload.data, .arm interval] := by
    rw [tickCalls, if_pos hrunning, if_neg (mt List.isEmpty_iff.mp hsome), h.port_eq, h.interval_eq,
      List.singleton_append]
  rw [← hcalls]
  exact Traced.adds_tellAll b.tickCalls now

end Made

/-- A beacon in its surroundings. -/
structure Site (ω : Type) where
  beacon : Beacon
  world : ω

namespace Site

variable [Platform ω]

def perform (s : Site ω) : Operation → Site ω
  | .pack servicePort name => ⟨(s.beacon.pack servicePort name).2, s.world⟩
  | .start => ⟨(s.beacon.start s.world).1, (s.beacon.start s.world).2⟩
  | .stop => ⟨(s.beacon.stop s.world).1, (s.beacon.stop s.world).2⟩
  | .tick => ⟨s.beacon, s.beacon.tick s.world⟩

def run (s : Site ω) (ops : List Operation) : Site ω :=
  ops.foldl perform s

theorem made_perform {s : Site ω} (h : s.beacon.Made port interval nameLengthMax swapped) (op : Operation) :
    (s.perform op).beacon.Made port interval nameLengthMax swapped := by
  cases op with
  | pack servicePort name => exact h.pack servicePort name
  | start => exact ⟨h.port_eq, h.interval_eq, h.make_eq⟩
  | stop => exact ⟨h.port_eq, h.interval_eq, h.make_eq⟩
  | tick => exact h

theorem made_run {s : Site ω} (h : s.beacon.Made port interval nameLengthMax swapped) (ops : List Operation) :
    (s.run ops).beacon.Made port interval nameLengthMax swapped := by
  induction ops generalizing s with
  | nil => exact h
  | cons op ops ih => exact ih (made_perform h op)

/-- Whether nothing is broadcast from one site to another, and nothing can be. -/
structure Silent (s t : Site (Traced ω)) : Prop where
  data_eq : t.beacon.payload.data = []
  hushed : Traced.Hushed s.world t.world

theorem silent_perform {s : Site (Traced ω)} (h : s.beacon.Made port interval nameLengthMax swapped)
    (hempty : s.beacon.payload.data = []) {op : Operation} (hop : ¬op.Packs nameLengthMax) :
    s.Silent (s.perform op) := by
  cases op with
  | pack servicePort name =>
      refine ⟨?_, .of_eq rfl⟩
      rw [perform, h.pack_eq hop]
      exact Buffer.filled_reset _
  | start => exact ⟨hempty, .tell s.world id⟩
  | stop => exact ⟨hempty, .tell s.world id⟩
  | tick =>
      refine ⟨hempty, _, Traced.adds_tellAll s.beacon.tickCalls s.world, ?_⟩
      intro call hcall
      rw [tickCalls, hempty, List.isEmpty_nil, if_pos rfl, List.nil_append] at hcall
      split at hcall
      · rw [List.mem_singleton.mp hcall]
        exact id
      · simp at hcall

theorem silent_run {s : Site (Traced ω)} (h : s.beacon.Made port interval nameLengthMax swapped)
    (hempty : s.beacon.payload.data = []) {ops : List Operation}
    (hops : ∀ op ∈ ops, ¬op.Packs nameLengthMax) : s.Silent (s.run ops) := by
  induction ops generalizing s with
  | nil => exact ⟨hempty, .of_eq rfl⟩
  | cons op ops ih =>
      rw [List.forall_mem_cons] at hops
      have hstep := silent_perform h hempty hops.1
      have hrest := ih (made_perform h op) hstep.data_eq hops.2
      exact ⟨hrest.data_eq, hstep.hushed.trans hrest.hushed⟩

end Site

variable [Platform ω]

/-- Whatever was done with a beacon, a name is packed exactly if its length has one byte and the beacon has room for
it. The payload is then that of the port and the name alone: every reader of its byte order gets them back, however
it is fed, and while the beacon is on, it is what goes out when the timer runs out. If the name is not packed, the
beacon has no payload, and nothing is broadcast until another name is packed. -/
theorem pack_run (port : UInt16) (interval : UInt32) (nameLengthMax : Nat) (swapped : Bool)
    (world : Traced ω) (ops : List Operation) (servicePort : UInt16) (name : List UInt8) :
    let s : Site (Traced ω) := Site.run ⟨new port interval nameLengthMax swapped, world⟩ ops
    ∃ answer packed, s.beacon.pack servicePort name = (answer, packed) ∧
      (answer = .ok () ↔ name.length ≤ Packet.stringLimit ∧ name.length ≤ nameLengthMax) ∧
      (answer = .ok () →
        packed.payload.data = Item.wire swapped (items servicePort name) ∧
        (∀ capacity, Reader.Recovers nextAsk capacity swapped packed.payload.data (items servicePort name)) ∧
        (packed.running = true → ∀ now : Traced ω,
          Traced.Adds [.broadcast port packed.payload.data, .arm interval] now (packed.tick now))) ∧
      (answer ≠ .ok () →
        answer = .error .payloadTooLarge ∧ packed.payload.data = [] ∧
        ∀ (now : Traced ω) (more : List Operation), (∀ op ∈ more, ¬op.Packs nameLengthMax) →
          Site.Silent ⟨packed, now⟩ (Site.run ⟨packed, now⟩ more)) := by
  intro s
  have hmade : s.beacon.Made port interval nameLengthMax swapped :=
    Site.made_run (made_new port interval nameLengthMax swapped) ops
  have hpacked := hmade.pack servicePort name
  by_cases hname : Packs nameLengthMax name
  · obtain ⟨full, hpack, hdata⟩ := hmade.exists_pack hname servicePort
    rw [hpack] at hpacked
    refine ⟨_, _, hpack, iff_of_true rfl hname, ?_, fun hanswer => absurd rfl hanswer⟩
    intro _
    refine ⟨hdata, ?_, ?_⟩
    · intro capacity
      rw [hdata]
      exact Reader.recovers (tells_items servicePort name) (forall_for servicePort name)
        (fits_of_mem_items hname servicePort) capacity swapped
    · intro hrunning
      refine hpacked.adds_tick hrunning ?_
      rw [hdata, wire_items]
      exact datagram_ne_nil swapped servicePort name
  · rw [hmade.pack_eq hname] at hpacked ⊢
    refine ⟨_, _, rfl, iff_of_false (by simp) hname, fun hanswer => by simp at hanswer, ?_⟩
    intro _
    have hempty : s.beacon.payload.reset.data = [] := Buffer.filled_reset _
    refine ⟨rfl, hempty, ?_⟩
    intro now more hmore
    exact Site.silent_run hpacked hempty hmore

/-- A beacon with room for names of 300 bytes does not pack one of 256, which leaves no trace in the next payload, and
no payload of the one before. -/
theorem pack_run_long :
    let s (ops : List Operation) : Site (Traced Bench) := Site.run ⟨new 8888 500 300 true, ⟨{}, []⟩⟩ ops
    let long : List UInt8 := List.replicate 256 65
    (∃ packed, (s [.start, .pack 1234 long]).beacon.pack 1234 [100, 101, 110] = (.ok (), packed) ∧
      packed.payload.data = [4, 210, 3, 100, 101, 110] ∧
      Reader.Recovers nextAsk 2 true [4, 210, 3, 100, 101, 110]
        [.number 2 1234, .number 1 3, .text (.raw [100, 101, 110])]) ∧
    ∃ packed, (s [.start, .pack 1234 [100, 101, 110]]).beacon.pack 1234 long =
        (.error .payloadTooLarge, packed) ∧
      ∀ now : Traced Bench, Site.Silent ⟨packed, now⟩ (Site.run ⟨packed, now⟩ [.tick, .stop, .pack 80 long]) := by
  intro s long
  have hlong : ¬Packs 300 long := by
    rw [Packs, List.length_replicate]
    decide
  constructor
  · obtain ⟨answer, packed, hpack, hanswer, hok, -⟩ :=
      pack_run 8888 500 300 true (⟨{}, []⟩ : Traced Bench) [.start, .pack 1234 long] 1234 [100, 101, 110]
    obtain rfl : answer = .ok () := hanswer.mpr (by decide)
    obtain ⟨hdata, hrecovers, -⟩ := hok rfl
    have hwire : Item.wire true (items 1234 [100, 101, 110]) = [4, 210, 3, 100, 101, 110] := by decide
    rw [hwire] at hdata
    exact ⟨packed, hpack, hdata, hdata ▸ hrecovers 2⟩
  · obtain ⟨answer, packed, hpack, hanswer, -, herror⟩ :=
      pack_run 8888 500 300 true (⟨{}, []⟩ : Traced Bench) [.start, .pack 1234 [100, 101, 110]] 1234 long
    obtain ⟨rfl, -, hsilent⟩ := herror (mt hanswer.mp hlong)
    refine ⟨packed, hpack, fun now => hsilent now _ ?_⟩
    intro op hop
    simp only [List.mem_cons, List.not_mem_nil, or_false] at hop
    rcases hop with rfl | rfl | rfl
    · exact id
    · exact id
    · exact hlong

end Infrared.Beacon
