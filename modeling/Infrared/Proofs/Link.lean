import Infrared.Link

namespace Infrared.Link

variable {σ τ : Type} [Link σ] [Link τ] {count : Nat} {s t : σ} {bytes : List UInt8}

theorem got_append (got : Array UInt8) (front back : List UInt8) :
    got ++ (front ++ back) = got ++ front ++ back := by
  apply Array.ext'
  simp

theorem collect_zero (got : Array UInt8) (s : σ) : collect 0 got s = (.ok (), got, s) := by
  rw [collect, if_pos rfl]

theorem collect_of_read (hread : read count s = (some bytes, t)) (hle : bytes.length ≤ count)
    (hbytes : bytes ≠ []) (got : Array UInt8) :
    collect count got s = collect (count - bytes.length) (got ++ bytes) t := by
  cases bytes with
  | nil => exact absurd rfl hbytes
  | cons byte rest =>
      have hcount : count ≠ 0 := by
        rw [List.length_cons] at hle
        omega
      rw [collect, if_neg hcount, hread]
      dsimp only
      rw [List.take_of_length_le hle]
      rfl

theorem collect_of_closed (hcount : 0 < count) (hread : read count s = (some [], t))
    (got : Array UInt8) : collect count got s = (.error .disconnected, got, t) := by
  rw [collect, if_neg (Nat.ne_of_gt hcount), hread]
  dsimp only
  rw [List.take_nil]

theorem collect_of_failed (hcount : 0 < count) (hread : read count s = (none, t))
    (got : Array UInt8) : collect count got s = (.error .io, got, t) := by
  rw [collect, if_neg (Nat.ne_of_gt hcount), hread]

theorem writeAll_nil (s : σ) : writeAll [] s = (.ok (), s) := by
  rw [writeAll]

theorem writeAll_of_write {accepted : Nat} (hbytes : bytes ≠ [])
    (hwrite : write bytes s = (some accepted, t)) (haccepted : 0 < accepted) :
    writeAll bytes s = writeAll (bytes.drop accepted) t := by
  cases bytes with
  | nil => exact absurd rfl hbytes
  | cons byte rest =>
      obtain ⟨more, rfl⟩ := Nat.exists_eq_succ_of_ne_zero (Nat.ne_of_gt haccepted)
      rw [writeAll, hwrite]
      rfl

/-- A write that accepts a part of so many bytes leaves the rest. -/
theorem writeAll_of_take {limit : Nat} (hbytes : bytes ≠ []) (hlimit : 0 < limit)
    (hwrite : write bytes s = (some (bytes.take limit).length, t)) :
    writeAll bytes s = writeAll (bytes.drop limit) t := by
  have hlength := List.length_pos_iff.mpr hbytes
  have hpiece : 0 < (bytes.take limit).length := by
    rw [List.length_take]
    omega
  have hdrop : bytes.drop (bytes.take limit).length = bytes.drop limit := by
    rw [List.drop_eq_drop_iff, List.length_take]
    omega
  rw [writeAll_of_write hbytes hwrite hpiece, hdrop]

theorem writeAll_of_closed (hbytes : bytes ≠ []) (hwrite : write bytes s = (some 0, t)) :
    writeAll bytes s = (.error .disconnected, t) := by
  cases bytes with
  | nil => exact absurd rfl hbytes
  | cons byte rest => rw [writeAll, hwrite]

theorem writeAll_of_failed (hbytes : bytes ≠ []) (hwrite : write bytes s = (none, t)) :
    writeAll bytes s = (.error .io, t) := by
  cases bytes with
  | nil => exact absurd rfl hbytes
  | cons byte rest => rw [writeAll, hwrite]

theorem collect_eq_of_read {α : Type} (f : σ → α) (h : ∀ count s, f (read count s).2 = f s)
    (count : Nat) (got : Array UInt8) (s : σ) : f (collect count got s).2.2 = f s := by
  have hstep {count : Nat} {s t : σ} {moved : Option (List UInt8)}
      (hread : read count s = (moved, t)) : f t = f s := by
    have hsame := h count s
    rwa [hread] at hsame
  fun_induction collect count got s with
  | case1 got s => rfl
  | case2 count got s _ t hread => exact hstep hread
  | case3 count got s _ bytes t hread => exact hstep hread
  | case4 count got s _ bytes t hread byte rest _ ih => exact ih.trans (hstep hread)

theorem readBlock_eq_of_read {α : Type} (f : σ → α) (h : ∀ count s, f (read count s).2 = f s)
    (count : Nat) (s : σ) : f (readBlock count s).2 = f s := by
  have hcollect := collect_eq_of_read f h count #[] s
  rw [readBlock]
  split
  · rename_i heq
    rwa [heq] at hcollect
  · rename_i heq
    rwa [heq] at hcollect

theorem writeAll_eq_of_write {α : Type} (f : σ → α) (h : ∀ data s, f (write data s).2 = f s)
    (data : List UInt8) (s : σ) : f (writeAll data s).2 = f s := by
  have hstep {data : List UInt8} {s t : σ} {moved : Option Nat}
      (hwrite : write data s = (moved, t)) : f t = f s := by
    have hsame := h data s
    rwa [hwrite] at hsame
  fun_induction writeAll data s with
  | case1 s => rfl
  | case2 s byte rest t hwrite => exact hstep hwrite
  | case3 s byte rest t hwrite => exact hstep hwrite
  | case4 s byte rest accepted t hwrite ih => exact ih.trans (hstep hwrite)

/-- What a link says for itself. -/
def Breaks (fault : Fault) : Prop :=
  fault = .disconnected ∨ fault = .io

theorem breaks_of_collect {got : Array UInt8} {fault : Fault}
    (h : (collect count got s).1 = .error fault) : Breaks fault := by
  fun_induction collect count got s with
  | case1 => simp at h
  | case2 => exact .inr (Except.error.inj h).symm
  | case3 => exact .inl (Except.error.inj h).symm
  | case4 _ _ _ _ _ _ _ _ _ _ ih => exact ih h

theorem breaks_of_readBlock {fault : Fault} (h : (readBlock count s).1 = .error fault) :
    Breaks fault := by
  rw [readBlock] at h
  split at h
  · simp at h
  · rename_i broken _ _ heq
    rw [← Except.error.inj h]
    exact breaks_of_collect (congrArg (·.1) heq)

theorem breaks_of_writeAll {data : List UInt8} {fault : Fault}
    (h : (writeAll data s).1 = .error fault) : Breaks fault := by
  fun_induction writeAll data s with
  | case1 => simp at h
  | case2 => exact .inr (Except.error.inj h).symm
  | case3 => exact .inl (Except.error.inj h).symm
  | case4 _ _ _ _ _ _ ih => exact ih h

theorem writeAll_map {f : τ → σ}
    (h : ∀ data s, write data (f s) = ((write data s).1, f (write data s).2)) (data : List UInt8)
    (s : τ) : writeAll data (f s) = ((writeAll data s).1, f (writeAll data s).2) := by
  fun_induction writeAll data s with
  | case1 s => rw [writeAll]
  | case2 s byte rest t hwrite => rw [writeAll, h, hwrite]
  | case3 s byte rest t hwrite => rw [writeAll, h, hwrite]
  | case4 s byte rest accepted t hwrite ih =>
      rw [writeAll, h, hwrite]
      exact ih

/-- Whether a link works as the part of it does that a function shows. -/
structure Works (f : τ → σ) : Prop where
  read_eq : ∀ count s, read count (f s) = ((read count s).1, f (read count s).2)
  write_eq : ∀ data s, write data (f s) = ((write data s).1, f (write data s).2)

namespace Works

variable {f : τ → σ}

theorem collect_eq (h : Works f) (count : Nat) (got : Array UInt8) (s : τ) :
    collect count got (f s) =
      ((collect count got s).1, (collect count got s).2.1, f (collect count got s).2.2) := by
  fun_induction collect count got s with
  | case1 got s => exact collect_zero got (f s)
  | case2 count got s hcount t hread => rw [collect, if_neg hcount, h.read_eq, hread]
  | case3 count got s hcount bytes t hread htake =>
      rw [collect, if_neg hcount, h.read_eq, hread]
      dsimp only
      rw [htake]
  | case4 count got s hcount bytes t hread byte rest htake ih =>
      rw [collect, if_neg hcount, h.read_eq, hread]
      dsimp only
      rw [htake]
      exact ih

theorem readBlock_eq (h : Works f) (count : Nat) (s : τ) :
    readBlock count (f s) = ((readBlock count s).1, f (readBlock count s).2) := by
  rw [readBlock, readBlock, h.collect_eq]
  obtain ⟨result, got, t⟩ := collect count #[] s
  cases result with
  | ok _ => rfl
  | error fault => rfl

theorem writeAll_eq (h : Works f) (data : List UInt8) (s : τ) :
    writeAll data (f s) = ((writeAll data s).1, f (writeAll data s).2) :=
  writeAll_map h.write_eq data s

end Works

/-- A link that keeps the blocks that are offered to it. -/
structure Watched (σ : Type) where
  link : σ
  offered : List (List UInt8) := []

namespace Watched

instance : Link (Watched σ) where
  read count w := ((read count w.link).1, { w with link := (read count w.link).2 })
  write data w := ((write data w.link).1, ⟨(write data w.link).2, w.offered ++ [data]⟩)

theorem works : Works (link : Watched σ → σ) :=
  ⟨fun _ _ => rfl, fun _ _ => rfl⟩

theorem offered_readBlock (count : Nat) (w : Watched σ) :
    (readBlock count w).2.offered = w.offered :=
  readBlock_eq_of_read (·.offered) (fun _ _ => rfl) count w

theorem offered_eq_of_write {data : List UInt8} {moved : Option Nat} {w v : Watched σ}
    (h : write data w = (moved, v)) : v.offered = w.offered ++ [data] :=
  (congrArg (fun r => r.2.offered) h).symm

/-- Blocks that are written are offered as a whole first, and then what is left of them. -/
theorem exists_offered_writeAll {data : List UInt8} (hdata : data ≠ []) (w : Watched σ) :
    ∃ blocks, (writeAll data w).2.offered = w.offered ++ data :: blocks ∧
      ∀ block ∈ blocks, block <:+ data := by
  fun_induction writeAll data w with
  | case1 => exact absurd rfl hdata
  | case2 w byte rest v hwrite => exact ⟨[], offered_eq_of_write hwrite, by simp⟩
  | case3 w byte rest v hwrite => exact ⟨[], offered_eq_of_write hwrite, by simp⟩
  | case4 w byte rest accepted v hwrite ih =>
      have hoffered := offered_eq_of_write hwrite
      have hsuffix : rest.drop accepted <:+ byte :: rest :=
        (List.drop_suffix _ _).trans (List.suffix_cons _ _)
      by_cases hrest : rest.drop accepted = []
      · refine ⟨[], ?_, by simp⟩
        rw [hrest, writeAll]
        exact hoffered
      · obtain ⟨blocks, heq, hblocks⟩ := ih hrest
        refine ⟨rest.drop accepted :: blocks, ?_, ?_⟩
        · rw [heq, hoffered, List.append_assoc]
          rfl
        · intro block hblock
          rcases List.mem_cons.mp hblock with rfl | hblock
          · exact hsuffix
          · exact (hblocks block hblock).trans hsuffix

end Watched

end Infrared.Link
