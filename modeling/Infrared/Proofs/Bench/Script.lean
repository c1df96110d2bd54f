import Infrared.Bench.Script
import Infrared.Proofs.Link

namespace Infrared.Bench

/-- What arrives over a link until it is closed or fails. -/
structure Arrival where
  bytes : List UInt8
  /-- Whether it was closed or failed. -/
  ending : Fault
  /-- The chunks that follow. -/
  later : List (Option (List UInt8))

namespace Arrival

/-- A chunk without bytes says that the link is closed, and so does the end of all chunks. -/
def ofChunks : List (Option (List UInt8)) → Arrival
  | [] => ⟨[], .disconnected, []⟩
  | none :: chunks => ⟨[], .io, chunks⟩
  | some [] :: chunks => ⟨[], .disconnected, chunks⟩
  | some (byte :: bytes) :: chunks =>
    match ofChunks chunks with
    | ⟨next, ending, later⟩ => ⟨byte :: bytes ++ next, ending, later⟩

/-- What is left once some of the bytes were read. -/
def drop (count : Nat) (a : Arrival) : Arrival :=
  { a with bytes := a.bytes.drop count }

theorem ofChunks_cons {chunk : List UInt8} (h : chunk ≠ []) (chunks : List (Option (List UInt8))) :
    ofChunks (some chunk :: chunks) =
      ⟨chunk ++ (ofChunks chunks).bytes, (ofChunks chunks).ending, (ofChunks chunks).later⟩ := by
  cases chunk with
  | nil => exact absurd rfl h
  | cons byte bytes => rfl

theorem ending_ofChunks (chunks : List (Option (List UInt8))) :
    (ofChunks chunks).ending = .disconnected ∨ (ofChunks chunks).ending = .io := by
  induction chunks with
  | nil => exact .inl rfl
  | cons chunk chunks ih =>
      match chunk with
      | none => exact .inr rfl
      | some [] => exact .inl rfl
      | some (_ :: _) => exact ih

end Arrival

namespace Script

variable {count : Nat} {chunk : List UInt8} {chunks : List (Option (List UInt8))} {s : Script}

def arrival (s : Script) : Arrival :=
  .ofChunks s.reads

theorem read_of_length_le (hreads : s.reads = some chunk :: chunks) (h : chunk.length ≤ count) :
    Link.read count s = (some chunk, { s with reads := chunks }) := by
  change read count s = _
  rw [read, hreads]
  dsimp only
  rw [if_pos h]

theorem read_of_lt (hreads : s.reads = some chunk :: chunks) (h : count < chunk.length) :
    Link.read count s =
      (some (chunk.take count), { s with reads := some (chunk.drop count) :: chunks }) := by
  change read count s = _
  rw [read, hreads]
  dsimp only
  rw [if_neg (Nat.not_le.mpr h)]

theorem collect_of_length_le (hreads : s.reads = some chunk :: chunks) (hchunk : chunk ≠ [])
    (h : chunk.length ≤ count) (got : Array UInt8) :
    Link.collect count got s =
      Link.collect (count - chunk.length) (got ++ chunk) { s with reads := chunks } :=
  Link.collect_of_read (read_of_length_le hreads h) h hchunk got

theorem collect_of_lt (hreads : s.reads = some chunk :: chunks) (hcount : 0 < count)
    (h : count < chunk.length) (got : Array UInt8) :
    Link.collect count got s =
      (.ok (), got ++ chunk.take count, { s with reads := some (chunk.drop count) :: chunks }) := by
  have hlength : (chunk.take count).length = count := List.length_take_of_le (Nat.le_of_lt h)
  have hne : chunk.take count ≠ [] := List.ne_nil_of_length_pos (by omega)
  rw [Link.collect_of_read (read_of_lt hreads h) (Nat.le_of_eq hlength) hne, hlength, Nat.sub_self,
    Link.collect_zero]

theorem exists_collect_of_le (h : count ≤ s.arrival.bytes.length) (got : Array UInt8) :
    ∃ chunks, Link.collect count got s =
        (.ok (), got ++ s.arrival.bytes.take count, { s with reads := chunks }) ∧
      Arrival.ofChunks chunks = s.arrival.drop count := by
  by_cases hcount : count = 0
  · subst hcount
    exact ⟨s.reads, by simp [Link.collect_zero], rfl⟩
  generalize hreads : s.reads = reads
  induction reads generalizing s count got with
  | nil =>
      rw [arrival, hreads] at h
      exact absurd (Nat.le_zero.mp h) hcount
  | cons item chunks ih =>
      rw [arrival, hreads] at h ⊢
      match item with
      | none => exact absurd (Nat.le_zero.mp h) hcount
      | some [] => exact absurd (Nat.le_zero.mp h) hcount
      | some (byte :: rest) =>
          have hne : byte :: rest ≠ [] := by simp
          rw [Arrival.ofChunks_cons hne] at h ⊢
          rcases Nat.lt_trichotomy count (byte :: rest).length with hlt | heq | hgt
          · have hdrop : (byte :: rest).drop count ≠ [] := by
              rw [ne_eq, List.drop_eq_nil_iff]
              omega
            refine ⟨some ((byte :: rest).drop count) :: chunks, ?_, ?_⟩
            · rw [collect_of_lt hreads (Nat.pos_of_ne_zero hcount) hlt,
                List.take_append_of_le_length (Nat.le_of_lt hlt)]
            · rw [Arrival.ofChunks_cons hdrop, Arrival.drop,
                List.drop_append_of_le_length (Nat.le_of_lt hlt)]
          · refine ⟨chunks, ?_, ?_⟩
            · rw [collect_of_length_le hreads hne (Nat.le_of_eq heq.symm), heq, Nat.sub_self,
                Link.collect_zero, List.take_left]
            · rw [heq, Arrival.drop, List.drop_left]
          · rw [List.length_append] at h
            have hrest : count - (byte :: rest).length ≤
                ({ s with reads := chunks } : Script).arrival.bytes.length :=
              Nat.sub_le_of_le_add (Nat.add_comm _ _ ▸ h)
            obtain ⟨left, hcollect, hleft⟩ := ih hrest (got ++ (byte :: rest)) (by omega) rfl
            refine ⟨left, ?_, ?_⟩
            · rw [collect_of_length_le hreads hne (Nat.le_of_lt hgt), hcollect, List.take_append,
                List.take_of_length_le (Nat.le_of_lt hgt), Link.got_append]
              rfl
            · rw [hleft, Arrival.drop, Arrival.drop, List.drop_append,
                List.drop_of_length_le (Nat.le_of_lt hgt)]
              rfl

theorem collect_of_arrival_lt (h : s.arrival.bytes.length < count) (got : Array UInt8) :
    Link.collect count got s =
      (.error s.arrival.ending, got ++ s.arrival.bytes, { s with reads := s.arrival.later }) := by
  have hcount : 0 < count := Nat.zero_lt_of_lt h
  generalize hreads : s.reads = reads
  rw [arrival, hreads] at h ⊢
  induction reads generalizing s count got with
  | nil =>
      have hread : Link.read count s = (some [], s) := by
        change read count s = _
        rw [read, hreads]
      rw [Link.collect_of_closed hcount hread]
      simp [Arrival.ofChunks, ← hreads]
  | cons item chunks ih =>
      match item with
      | none =>
          have hread : Link.read count s = (none, { s with reads := chunks }) := by
            change read count s = _
            rw [read, hreads]
          rw [Link.collect_of_failed hcount hread]
          simp [Arrival.ofChunks]
      | some [] =>
          rw [Link.collect_of_closed hcount (read_of_length_le hreads (Nat.zero_le _))]
          simp [Arrival.ofChunks]
      | some (byte :: rest) =>
          have hne : byte :: rest ≠ [] := by simp
          rw [Arrival.ofChunks_cons hne, List.length_append] at h
          have hshort : (Arrival.ofChunks chunks).bytes.length < count - (byte :: rest).length := by
            omega
          have hrest := ih (s := { s with reads := chunks }) (got ++ (byte :: rest))
            (Nat.zero_lt_of_lt hshort) hshort rfl
          rw [collect_of_length_le hreads hne (by omega), hrest, Arrival.ofChunks_cons hne,
            Link.got_append]

theorem exists_readBlock_of_le (h : count ≤ s.arrival.bytes.length) :
    ∃ chunks, Link.readBlock count s =
        (.ok (s.arrival.bytes.take count), { s with reads := chunks }) ∧
      Arrival.ofChunks chunks = s.arrival.drop count := by
  obtain ⟨chunks, hcollect, hchunks⟩ := exists_collect_of_le h #[]
  refine ⟨chunks, ?_, hchunks⟩
  rw [Link.readBlock, hcollect]
  simp

theorem readBlock_of_lt (h : s.arrival.bytes.length < count) :
    Link.readBlock count s = (.error s.arrival.ending, { s with reads := s.arrival.later }) := by
  rw [Link.readBlock, collect_of_arrival_lt h]

theorem reads_write (data : List UInt8) (s : Script) : (Link.write data s).2.reads = s.reads := by
  change (write data s).2.reads = _
  rw [write]
  split
  · rfl
  · rfl
  · rfl

theorem reads_writeAll (data : List UInt8) (s : Script) :
    (Link.writeAll data s).2.reads = s.reads :=
  Link.writeAll_eq_of_write (·.reads) reads_write data s

end Script

end Infrared.Bench
