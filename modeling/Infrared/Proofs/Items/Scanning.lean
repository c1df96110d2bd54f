import Infrared.Proofs.Items.Reading

namespace Infrared

namespace Reader

/-- The reader without what it asks for after the item that is due. -/
def current (r : Reader) : Reader :=
  { r with asks := r.asks.take 1 }

/-- Has a reader with nothing left to ask for go on with what the items it has tell it to. -/
def goOn (next : List Item → Option Ask) (r : Reader) : Reader :=
  match r.asks with
  | [] => { r with asks := (next r.items).toList }
  | _ :: _ => r

def scan (next : List Item → Option Ask) (r : Reader) (moves : List Move) : Except Fault Reader :=
  moves.foldlM (fun r move => (r.perform move).map (goOn next)) r

/-- A new reader that is told nothing but what comes first. -/
def scanner (next : List Item → Option Ask) (capacity : Nat) (swapped : Bool) : Reader :=
  new capacity swapped (next []).toList

/-- Whether a reader that had something to ask for at first has come to what was behind its items. -/
structure Keeps (asks : List Ask) (r : Reader) : Prop where
  drop_one : r.asks.drop 1 = asks.drop (r.items.length + 1)
  eq_nil : r.asks = [] → asks.length ≤ r.items.length

variable {next : List Item → Option Ask} {asks : List Ask} {items : List Item} {r r' : Reader}
  {capacity : Nat} {swapped : Bool} {bytes : List UInt8}

theorem keeps_new (asks : List Ask) (capacity : Nat) (swapped : Bool) :
    (new capacity swapped asks).Keeps asks := by
  refine ⟨rfl, ?_⟩
  intro h
  exact Nat.le_of_eq (congrArg List.length h)

theorem Keeps.perform (h : r.Keeps asks) {move : Move} (hperform : r.perform move = .ok r') :
    r'.Keeps asks := by
  cases move with
  | feed more =>
      rw [Reader.perform] at hperform
      split at hperform
      · rw [← Except.ok.inj hperform]
        exact ⟨h.drop_one, h.eq_nil⟩
      · simp at hperform
  | read =>
      rw [Reader.perform] at hperform
      split at hperform
      · rwa [← Except.ok.inj hperform]
      · rename_i ask rest hasks
        have hrest := h.drop_one
        rw [hasks, List.drop_one, List.tail_cons] at hrest
        split at hperform
        · rw [← Except.ok.inj hperform]
          refine ⟨?_, ?_⟩
          · rw [hrest, List.drop_drop, List.length_append]
            rfl
          · intro hnil
            rw [hrest, List.drop_eq_nil_iff] at hnil
            rw [List.length_append]
            exact hnil
        · rw [← Except.ok.inj hperform]
          exact ⟨hrest, by simp⟩
        · simp at hperform

theorem Keeps.run (h : r.Keeps asks) {moves : List Move} (hrun : r.run moves = .ok r') : r'.Keeps asks := by
  induction moves generalizing r with
  | nil =>
      obtain rfl : r = r' := Except.ok.inj hrun
      exact h
  | cons move moves ih =>
      cases hperform : r.perform move with
      | error fault =>
          simp [Reader.run, hperform, bind, Except.bind] at hrun
      | ok next =>
          rw [run_cons hperform] at hrun
          exact ih (h.perform hperform) hrun

theorem goOn_current (h : r.Keeps asks) (hnext : next r.items = asks[r.items.length]?) :
    goOn next r.current = r.current := by
  cases hasks : r.asks with
  | nil =>
      have hnone := List.getElem?_eq_none (h.eq_nil hasks)
      simp only [goOn, current, hasks, List.take_nil, hnext, hnone, Option.toList]
  | cons ask rest => simp only [goOn, current, hasks, List.take_succ_cons]

/-- A reader that goes on to what its items tell it asks for what one that knew all of it asks for. -/
theorem perform_current (h : r.Keeps asks) (move : Move)
    (hnext : ∀ r', r.perform move = .ok r' → next r'.items = asks[r'.items.length]?) :
    (r.current.perform move).map (goOn next) = (r.perform move).map current := by
  have hsame {u : Reader} (hperform : r.perform move = .ok u)
      (hcurrent : r.current.perform move = .ok u.current) :
      (r.current.perform move).map (goOn next) = (r.perform move).map current := by
    rw [hperform, hcurrent]
    exact congrArg Except.ok (goOn_current (h.perform hperform) (hnext u hperform))
  cases move with
  | feed more =>
      rcases hfeed : r.stream.feed more with ⟨fault | _, stream⟩
      · simp only [Reader.perform, current, hfeed, Except.map]
      · apply hsame (u := ⟨stream, r.asks, r.items⟩)
        · simp only [Reader.perform, hfeed]
        · simp only [Reader.perform, current, hfeed]
  | read =>
      obtain ⟨stream, due, items⟩ := r
      cases due with
      | nil => exact hsame rfl rfl
      | cons ask rest =>
          rcases hcall : ask.call stream with ⟨fault | (item | again), stream'⟩
          · simp only [Reader.perform, current, List.take_succ_cons, hcall, Except.map]
          · have hperform : (⟨stream, ask :: rest, items⟩ : Reader).perform .read =
                .ok ⟨stream', rest, items ++ [item]⟩ := by
              simp only [Reader.perform, hcall]
            have hdue : (next (items ++ [item])).toList = rest.take 1 := by
              rw [hnext _ hperform, List.take_one, show rest = _ from h.drop_one, List.head?_drop,
                List.length_append]
              rfl
            simp only [Reader.perform, current, List.take_succ_cons, hcall, Except.map, goOn, List.take_zero,
              hdue]
          · apply hsame (u := ⟨stream', again :: rest, items⟩)
            · simp only [Reader.perform, hcall]
            · simp only [Reader.perform, current, List.take_succ_cons, List.take_zero, hcall]

theorem Tracks.perform (h : r.Tracks capacity swapped items bytes) (hfits : ∀ item ∈ items, item.Fits)
    {move : Move} (hperform : r.perform move = .ok r')
    (hfed : bytes ++ move.bytes <+: Item.wire swapped items) :
    r'.Tracks capacity swapped items (bytes ++ move.bytes) := by
  have hmove : fed [move] = move.bytes := List.append_nil _
  have hrun : r.run [move] = .ok r' := run_cons hperform []
  have htracks := h.run hfits hrun (hmove ▸ hfed)
  rwa [hmove] at htracks

theorem Tracks.items_isPrefix (h : r.Tracks capacity swapped items bytes) : r.items <+: items := by
  obtain ⟨rest, -, hitems, -⟩ := h.exists_rest
  exact ⟨rest, hitems.symm⟩

/-- Whether what the front of some items tells to ask for next is what is asked for in turn. -/
def Tells (next : List Item → Option Ask) (asks : List Ask) (items : List Item) : Prop :=
  ∀ front, front <+: items → next front = asks[front.length]?

theorem scan_eq_map_run (htells : Tells next asks items) (hkeeps : r.Keeps asks)
    (htracks : r.Tracks capacity swapped items bytes) (hfits : ∀ item ∈ items, item.Fits)
    (moves : List Move) (hfed : bytes ++ fed moves <+: Item.wire swapped items) :
    r.current.scan next moves = (r.run moves).map current := by
  induction moves generalizing r bytes with
  | nil => rfl
  | cons move moves ih =>
      have hsplit : fed (move :: moves) = move.bytes ++ fed moves := List.flatMap_cons
      rw [hsplit, ← List.append_assoc] at hfed
      have htracks' {r' : Reader} (hperform : r.perform move = .ok r') :
          r'.Tracks capacity swapped items (bytes ++ move.bytes) :=
        htracks.perform hfits hperform ((List.prefix_append _ _).trans hfed)
      have hstep := perform_current hkeeps move fun r' hperform =>
        htells r'.items (htracks' hperform).items_isPrefix
      rw [scan, List.foldlM_cons, hstep, run, List.foldlM_cons]
      cases hperform : r.perform move with
      | error fault => rfl
      | ok r' => exact ih (hkeeps.perform hperform) (htracks' hperform) hfed

/-- Whether readers that are told nothing but what comes first get items back from the bytes that carry them, whatever
the pieces in which the bytes are fed and the calls in between. -/
structure Recovers (next : List Item → Option Ask) (capacity : Nat) (swapped : Bool) (bytes : List UInt8)
    (items : List Item) : Prop where
  exists_scan : ∀ cut, cut.flatten = bytes → (∀ piece ∈ cut, piece.length ≤ capacity) →
    ∃ moves r, (scanner next capacity swapped).scan next moves = .ok r ∧ pieces moves = cut ∧ r.items = items
  /-- A piece is refused only if there is no room for it. -/
  feed_iff : ∀ moves r, (scanner next capacity swapped).scan next moves = .ok r → fed moves <+: bytes →
    ∀ more, fed moves ++ more <+: bytes →
      ((∃ r', r.scan next [.feed more] = .ok r') ↔ more.length + r.stream.pending ≤ capacity)
  /-- No call fails, and what was read so far is right. -/
  items_isPrefix : ∀ moves r, (scanner next capacity swapped).scan next moves = .ok r →
    fed moves <+: bytes → r.items <+: items ∧ ∃ r', r.scan next [.read] = .ok r'
  /-- Once all bytes were fed, the calls that are left give the rest, and nothing is left over. -/
  exists_of_fed : ∀ moves r, (scanner next capacity swapped).scan next moves = .ok r →
    fed moves = bytes → ∃ count r', r.scan next (List.replicate count .read) = .ok r' ∧ r'.items = items ∧
      r'.stream.position = 0 ∧ r'.stream.pending = 0

theorem scanner_eq_current (htells : Tells next asks items) (capacity : Nat) (swapped : Bool) :
    scanner next capacity swapped = (new capacity swapped asks).current := by
  rw [scanner, htells [] List.nil_prefix, current]
  simp [new, List.take_one, List.head?_eq_getElem?]

/-- A reader that learns what comes next stands where one that knew it stands. -/
theorem exists_run_of_scan (htells : Tells next asks items) (hasks : List.Forall₂ Ask.For asks items)
    (hfits : ∀ item ∈ items, item.Fits) {moves : List Move}
    (hscan : (scanner next capacity swapped).scan next moves = .ok r)
    (hfed : fed moves <+: Item.wire swapped items) :
    ∃ known : Reader, known.current = r ∧ known.Keeps asks ∧
      known.Tracks capacity swapped items (fed moves) := by
  have hnew := tracks_new hasks capacity swapped
  rw [scanner_eq_current htells, scan_eq_map_run htells (keeps_new asks capacity swapped) hnew hfits moves hfed]
    at hscan
  cases hrun : (new capacity swapped asks).run moves with
  | error fault => simp [hrun, Except.map] at hscan
  | ok known =>
      rw [hrun] at hscan
      exact ⟨known, Except.ok.inj hscan, (keeps_new asks capacity swapped).run hrun,
        hnew.run hfits hrun hfed⟩

theorem recovers (htells : Tells next asks items) (hasks : List.Forall₂ Ask.For asks items)
    (hfits : ∀ item ∈ items, item.Fits) (capacity : Nat) (swapped : Bool) :
    Recovers next capacity swapped (Item.wire swapped items) items := by
  have hnew := tracks_new hasks capacity swapped
  have hkeeps := keeps_new asks capacity swapped
  constructor
  case exists_scan =>
    intro cut hcut hroom
    obtain ⟨moves, r, hrun, hmoves, htracks⟩ :=
      hnew.exists_run_pieces hfits rfl hroom (hcut ▸ List.prefix_refl _)
    rw [hcut, List.nil_append] at htracks
    obtain ⟨rest, -, hrest, -⟩ := htracks.exists_rest
    obtain ⟨r', hreads, hdone, -⟩ := htracks.exists_run_read hfits hrest
    have hpieces : pieces (moves ++ List.replicate rest.length .read) = cut := by
      rw [pieces_append, hmoves, pieces_replicate_read, List.append_nil]
    have hfed : fed (moves ++ List.replicate rest.length .read) = Item.wire swapped items := by
      rw [← flatten_pieces, hpieces, hcut]
    refine ⟨_, r'.current, ?_, hpieces, hdone⟩
    rw [scanner_eq_current htells, scan_eq_map_run htells hkeeps hnew hfits _ (hfed ▸ List.prefix_refl _),
      run_append hrun, hreads]
    rfl
  case feed_iff =>
    intro moves r hscan hfed more hmore
    obtain ⟨known, rfl, hknown, htracks⟩ := exists_run_of_scan htells hasks hfits hscan hfed
    rw [scan_eq_map_run htells hknown htracks hfits [.feed more] (by simpa [fed, Move.bytes] using hmore)]
    rw [show known.run [.feed more] = known.perform (.feed more) from bind_pure _]
    refine Iff.trans ?_ (htracks.perform_feed_iff more)
    cases known.perform (.feed more) with
    | error fault => simp [Except.map]
    | ok r' => simp [Except.map]
  case items_isPrefix =>
    intro moves r hscan hfed
    obtain ⟨known, rfl, hknown, htracks⟩ := exists_run_of_scan htells hasks hfits hscan hfed
    obtain ⟨r', hperform, -⟩ := htracks.exists_perform_read hfits hfed
    refine ⟨htracks.items_isPrefix, r'.current, ?_⟩
    rw [scan_eq_map_run htells hknown htracks hfits [.read] (by simpa [fed, Move.bytes] using hfed),
      run_cons hperform []]
    rfl
  case exists_of_fed =>
    intro moves r hscan hfed
    obtain ⟨known, rfl, hknown, htracks⟩ :=
      exists_run_of_scan htells hasks hfits hscan (hfed ▸ List.prefix_refl _)
    rw [hfed] at htracks
    obtain ⟨rest, -, hrest, -⟩ := htracks.exists_rest
    obtain ⟨r', hreads, hdone, hposition, hpending⟩ := htracks.exists_run_read hfits hrest
    refine ⟨rest.length, r'.current, ?_, hdone, hposition, hpending⟩
    rw [scan_eq_map_run htells hknown htracks hfits _ (by simp), hreads]
    rfl

end Reader

end Infrared
