import DingoFs.Client.FlatFile
import DingoFs.Client.S3CacheManager

/-!
# What the inode-objects listing says about each byte

Three layers over `FlatFile.lean`'s model:

* **One chunk** (`insertChunkInfo_spec`, `chunkView_insertChunkInfo`) — one
  `FlatFileChunk::InsertChunkInfo` keeps the slices apart and makes the new slice the only one
  over its range, every older slice shrinking to what lies outside it (`Keeps`). Over a run of
  inserts, the slice containing a byte carries the chunk id of the newest info covering it
  (`ChunkView`).
* **The file** — `FlatFile::InsertChunkInfo` over all chunk infos keeps one holder per chunk
  id, holding the info's objects, and a `ChunkView` per chunk index.
* **The rows** — `FormatStringWithHeader` prints, for a byte some info covers, exactly one row
  of positive length containing it: the newest info's, at the object of the byte's block
  numbered from the info's first block.
-/

namespace DingoFs.Client

open DingoFs.Common DingoFs.Lib DingoFs.Metaserver

namespace FlatFileSlice

/-- The slice holds byte `p`. -/
abbrev Contains (p : Nat) : FlatFileSlice → Prop :=
  Meets FlatFileSlice.fileOffset FlatFileSlice.len p (p + 1)

/-- The slice `y` meets the range of `n`. -/
abbrev Overlaps (n : FlatFileSlice) : FlatFileSlice → Prop :=
  Meets FlatFileSlice.fileOffset FlatFileSlice.len n.fileOffset (n.fileOffset + n.len)

end FlatFileSlice

/-- Slices as the chunk keeps them: nonempty, in offset order, apart. -/
abbrev SlicesApart : List FlatFileSlice → Prop :=
  Apart FlatFileSlice.fileOffset FlatFileSlice.len

namespace FlatFileChunk

/-! ## The overlap and the erase -/

variable {m : List FlatFileSlice} {n : FlatFileSlice}

/-- The slices `InsertChunkInfo` finds overlapping `n` are those that do. -/
theorem overlapSlices_eq (h : SlicesApart m) :
    overlapSlices m n = m.filter fun y => decide (n.Overlaps y) := by
  rw [overlapSlices]
  refine Eq.trans ?_ (h.overlap_eq_filter (Nat.le_add_right n.fileOffset n.len))
  congr 1
  -- the predecessor's test is the filter of the library lemma on a list of at most one slice
  split
  · rename_i prev hprev
    rw [hprev]
    by_cases hp : n.fileOffset < prev.fileOffset + prev.len
    · simp [hp]
    · simp [hp]
  · rename_i hnone
    rw [hnone]
    rfl

/-- Erasing the overlapped slices by offset leaves the slices that do not overlap. -/
theorem erase_overlap_eq (h : SlicesApart m) :
    (overlapSlices m n).foldl (fun m s => m.filter (·.fileOffset ≠ s.fileOffset)) m =
      m.filter fun y => !decide (n.Overlaps y) := by
  rw [foldl_filter_key_ne FlatFileSlice.fileOffset, overlapSlices_eq h]
  apply List.filter_congr
  intro x hx
  by_cases hov : n.Overlaps x
  · -- `x` is among the erased: its own offset
    have hmem : x ∈ m.filter fun y => decide (n.Overlaps y) :=
      List.mem_filter.mpr ⟨hx, by simpa using hov⟩
    simp only [hov, decide_true, Bool.not_true, decide_eq_false_iff_not, not_forall]
    exact ⟨x, hmem, fun hne => hne rfl⟩
  · -- an erased slice at `x`'s offset is `x`, which does not overlap
    simp only [hov, decide_false, Bool.not_false, decide_eq_true_eq]
    intro s hs hxs
    obtain ⟨hsm, hsov⟩ := List.mem_filter.mp hs
    rw [h.eq_of_start_eq hx hsm hxs] at hov
    exact hov (by simpa using hsov)

/-! ## What stays of each slice -/

/-- The part of `y` before `n`, as "insert left slice" builds it. -/
def leftPiece (n y : FlatFileSlice) : FlatFileSlice :=
  ⟨y.fileOffset, n.fileOffset - y.fileOffset, y.chunkId⟩

/-- The part of `y` after `n`, as "insert right slice" builds it. -/
def rightPiece (n y : FlatFileSlice) : FlatFileSlice :=
  ⟨n.fileOffset + n.len, y.fileOffset + y.len - (n.fileOffset + n.len), y.chunkId⟩

/-- What inserting `n` keeps of a slice `y` the chunk held: all of `y` if it does not overlap
`n`, else its part before `n` if there is one, and its part after `n` if there is one. -/
def Keeps (n y s : FlatFileSlice) : Prop :=
  (¬ n.Overlaps y ∧ s = y) ∨
  (n.Overlaps y ∧ y.fileOffset < n.fileOffset ∧ s = leftPiece n y) ∨
  (n.Overlaps y ∧ n.fileOffset + n.len < y.fileOffset + y.len ∧ s = rightPiece n y)

namespace Keeps

variable {y s s' : FlatFileSlice} {p : Nat}

theorem chunkId_eq (hk : Keeps n y s) : s.chunkId = y.chunkId := by
  rcases hk with ⟨_, rfl⟩ | ⟨_, _, rfl⟩ | ⟨_, _, rfl⟩ <;> rfl

theorem len_pos (hk : Keeps n y s) (hy : 0 < y.len) : 0 < s.len := by
  rcases hk with ⟨_, rfl⟩ | ⟨_, hlt, rfl⟩ | ⟨_, hgt, rfl⟩
  · exact hy
  · simp only [leftPiece]
    omega
  · simp only [rightPiece]
    omega

/-- A kept piece lies inside the slice it comes from. -/
theorem range_le (hk : Keeps n y s) :
    y.fileOffset ≤ s.fileOffset ∧ s.fileOffset + s.len ≤ y.fileOffset + y.len := by
  rcases hk with ⟨_, rfl⟩ | ⟨hov, hlt, rfl⟩ | ⟨hov, hgt, rfl⟩
  · omega
  · simp only [leftPiece]
    have := hov.2
    omega
  · simp only [rightPiece]
    have := hov.1
    omega

/-- A byte of a kept piece is a byte of its slice and not of `n`. -/
theorem contains (hk : Keeps n y s) (hs : s.Contains p) : y.Contains p ∧ ¬ n.Contains p := by
  have hle := hk.range_le
  obtain ⟨hs₁, hs₂⟩ := hs
  refine ⟨⟨by omega, by omega⟩, fun ⟨hn₁, hn₂⟩ => ?_⟩
  rcases hk with ⟨hov, rfl⟩ | ⟨_, _, rfl⟩ | ⟨_, _, rfl⟩
  · exact hov ⟨by omega, by omega⟩
  · simp only [leftPiece] at hs₂
    omega
  · simp only [rightPiece] at hs₁
    omega

/-- Of one slice, one kept piece holds a given byte. -/
theorem eq_of_contains (hk : Keeps n y s) (hk' : Keeps n y s') (hs : s.Contains p)
    (hs' : s'.Contains p) : s = s' := by
  obtain ⟨hs₁, hs₂⟩ := hs
  obtain ⟨hs₁', hs₂'⟩ := hs'
  -- the two pieces before and after `n` share no byte; a whole slice is no piece
  rcases hk with ⟨hov, rfl⟩ | ⟨hov, _, rfl⟩ | ⟨hov, _, rfl⟩ <;>
    rcases hk' with ⟨hov', rfl⟩ | ⟨hov', _, rfl⟩ | ⟨hov', _, rfl⟩
  all_goals first
    | rfl
    | exact absurd hov' hov
    | exact absurd hov hov'
    | (simp only [leftPiece, rightPiece] at hs₁ hs₂ hs₁' hs₂'; omega)

/-- A byte of a slice outside `n` stays in a kept piece. -/
theorem exists_of_contains (hy : y.Contains p) (hn : ¬ n.Contains p) :
    ∃ s, Keeps n y s ∧ s.Contains p := by
  obtain ⟨hy₁, hy₂⟩ := hy
  by_cases hov : n.Overlaps y
  · by_cases hp : p < n.fileOffset
    · -- before `n`: the left piece
      refine ⟨leftPiece n y, Or.inr (Or.inl ⟨hov, by omega, rfl⟩), ?_⟩
      simp only [FlatFileSlice.Contains, Meets, leftPiece]
      omega
    · -- after `n`: the right piece
      have hpn : n.fileOffset + n.len ≤ p := by
        by_contra hlt
        exact hn ⟨by omega, by omega⟩
      refine ⟨rightPiece n y, Or.inr (Or.inr ⟨hov, by omega, rfl⟩), ?_⟩
      simp only [FlatFileSlice.Contains, Meets, rightPiece]
      omega
  · exact ⟨y, Or.inl ⟨hov, rfl⟩, hy₁, hy₂⟩

end Keeps

theorem exists_keeps_iff {s : FlatFileSlice} :
    (∃ y ∈ m, Keeps n y s) ↔ (s ∈ m ∧ ¬ n.Overlaps s) ∨
      (∃ y ∈ m, n.Overlaps y ∧ y.fileOffset < n.fileOffset ∧ s = leftPiece n y) ∨
      (∃ y ∈ m, n.Overlaps y ∧ n.fileOffset + n.len < y.fileOffset + y.len ∧
        s = rightPiece n y) := by
  constructor
  · rintro ⟨y, hy, ⟨hov, rfl⟩ | ⟨hov, hlt, rfl⟩ | ⟨hov, hgt, rfl⟩⟩
    · exact Or.inl ⟨hy, hov⟩
    · exact Or.inr (Or.inl ⟨y, hy, hov, hlt, rfl⟩)
    · exact Or.inr (Or.inr ⟨y, hy, hov, hgt, rfl⟩)
  · rintro (⟨hs, hov⟩ | ⟨y, hy, hov, hlt, rfl⟩ | ⟨y, hy, hov, hgt, rfl⟩)
    · exact ⟨s, hs, Or.inl ⟨hov, rfl⟩⟩
    · exact ⟨y, hy, Or.inr (Or.inl ⟨hov, hlt, rfl⟩)⟩
    · exact ⟨y, hy, Or.inr (Or.inr ⟨hov, hgt, rfl⟩)⟩

/-! ## One insert -/

/-- "insert left slice" into slices `e` of `m` that do not overlap `n` puts back the part
before `n` of the overlapped slice that starts before it, if there is one. -/
theorem insertLeftSlice_spec (h : SlicesApart m) {e : List FlatFileSlice}
    (he : ∀ y ∈ e, y ∈ m ∧ ¬ n.Overlaps y)
    (hes : e.Pairwise fun y z => y.fileOffset < z.fileOffset) :
    ∃ w, insertLeftSlice n (m.filter fun y => decide (n.Overlaps y)) e = some w ∧
      (w.Pairwise fun y z => y.fileOffset < z.fileOffset) ∧
      ∀ s, s ∈ w ↔ s ∈ e ∨
        ∃ y ∈ m, n.Overlaps y ∧ y.fileOffset < n.fileOffset ∧ s = leftPiece n y := by
  have hov : SlicesApart (m.filter fun y => decide (n.Overlaps y)) := h.sublist List.filter_sublist
  unfold insertLeftSlice
  cases hfirst : (m.filter fun y => decide (n.Overlaps y)).head? with
  | none =>
    -- nothing overlaps `n`
    rw [List.head?_eq_none_iff, List.filter_eq_nil_iff] at hfirst
    refine ⟨e, rfl, hes, fun s => ⟨Or.inl, ?_⟩⟩
    rintro (hs | ⟨y, hy, hyov, _, _⟩)
    · exact hs
    · exact absurd (by simpa using hyov) (hfirst y hy)
  | some first =>
    obtain ⟨hfirstm, hfirstov⟩ := List.mem_filter.mp (List.mem_of_head? hfirst)
    have hfirstov : n.Overlaps first := by simpa using hfirstov
    dsimp only
    by_cases hlt : first.fileOffset < n.fileOffset
    · rw [if_pos hlt]
      have hfresh : ∀ y ∈ e, y.fileOffset ≠ (leftPiece n first).fileOffset := by
        intro y hy hyf
        obtain ⟨hym, hyov⟩ := he y hy
        exact hyov (h.eq_of_start_eq hym hfirstm hyf ▸ hfirstov)
      have hins := checkedInsert_of_fresh hfresh
      refine ⟨_, hins, pairwise_of_checkedInsert hins hes, fun s => ?_⟩
      rw [(perm_of_checkedInsert hins).mem_iff, List.mem_cons]
      constructor
      · rintro (rfl | hs)
        · exact Or.inr ⟨first, hfirstm, hfirstov, hlt, rfl⟩
        · exact Or.inl hs
      · rintro (hs | ⟨y, hym, hyov, hylt, rfl⟩)
        · exact Or.inr hs
        · -- the overlapped slice starting before `n` is `first`: both hold its first byte
          have hy : y = first := h.eq_of_meets_point hym hfirstm
            (p := n.fileOffset) ⟨by omega, hyov.2⟩ ⟨by omega, hfirstov.2⟩
          exact Or.inl (hy ▸ rfl)
    · rw [if_neg hlt]
      refine ⟨e, rfl, hes, fun s => ⟨Or.inl, ?_⟩⟩
      rintro (hs | ⟨y, hym, hyov, hylt, rfl⟩)
      · exact hs
      · -- `first` starts at or after `n`, and every other overlapped slice after `first`
        exfalso
        rcases rel_of_head?_eq hov.pairwise hfirst y
            (List.mem_filter.mpr ⟨hym, by simpa using hyov⟩) with rfl | hfy
        · exact hlt hylt
        · have := h.len_pos first hfirstm
          omega

/-- "insert right slice" into slices `w` whose one at the end of `n`, if any, is a slice of `m`
not overlapping `n`, puts back the part after `n` of the overlapped slice that ends after it,
if there is one. -/
theorem insertRightSlice_spec (h : SlicesApart m) {w : List FlatFileSlice}
    (hw : ∀ y ∈ w, y.fileOffset = n.fileOffset + n.len → y ∈ m ∧ ¬ n.Overlaps y)
    (hws : w.Pairwise fun y z => y.fileOffset < z.fileOffset) :
    ∃ w', insertRightSlice n (m.filter fun y => decide (n.Overlaps y)) w = some w' ∧
      (w'.Pairwise fun y z => y.fileOffset < z.fileOffset) ∧
      ∀ s, s ∈ w' ↔ s ∈ w ∨ ∃ y ∈ m, n.Overlaps y ∧
        n.fileOffset + n.len < y.fileOffset + y.len ∧ s = rightPiece n y := by
  have hov : SlicesApart (m.filter fun y => decide (n.Overlaps y)) := h.sublist List.filter_sublist
  unfold insertRightSlice
  cases hlast : (m.filter fun y => decide (n.Overlaps y)).getLast? with
  | none =>
    -- nothing overlaps `n`
    rw [List.getLast?_eq_none_iff, List.filter_eq_nil_iff] at hlast
    refine ⟨w, rfl, hws, fun s => ⟨Or.inl, ?_⟩⟩
    rintro (hs | ⟨y, hy, hyov, _, _⟩)
    · exact hs
    · exact absurd (by simpa using hyov) (hlast y hy)
  | some last =>
    obtain ⟨hlastm, hlastov⟩ := List.mem_filter.mp (List.mem_of_getLast? hlast)
    have hlastov : n.Overlaps last := by simpa using hlastov
    have hlastb := hlastov.1
    dsimp only
    by_cases hgt : n.fileOffset + n.len < last.fileOffset + last.len
    · rw [if_pos hgt]
      -- a slice at the end of `n` holds the byte there, as `last` does
      have hfresh : ∀ y ∈ w, y.fileOffset ≠ (rightPiece n last).fileOffset := by
        intro y hy hyb
        obtain ⟨hym, hyov⟩ := hw y hy hyb
        have hypos := h.len_pos y hym
        have hy : y = last := h.eq_of_meets_point hym hlastm
          (p := n.fileOffset + n.len) ⟨by simp only [rightPiece] at hyb; omega,
            by simp only [rightPiece] at hyb; omega⟩ ⟨by omega, hgt⟩
        exact hyov (hy ▸ hlastov)
      have hins := checkedInsert_of_fresh hfresh
      refine ⟨_, hins, pairwise_of_checkedInsert hins hws, fun s => ?_⟩
      rw [(perm_of_checkedInsert hins).mem_iff, List.mem_cons]
      constructor
      · rintro (rfl | hs)
        · exact Or.inr ⟨last, hlastm, hlastov, hgt, rfl⟩
        · exact Or.inl hs
      · rintro (hs | ⟨y, hym, hyov, hygt, rfl⟩)
        · exact Or.inr hs
        · -- the overlapped slice ending after `n` is `last`: both hold the byte after `n`
          have hy : y = last := h.eq_of_meets_point hym hlastm
            (p := n.fileOffset + n.len) ⟨by have := hyov.1; omega, hygt⟩ ⟨by omega, hgt⟩
          exact Or.inl (hy ▸ rfl)
    · rw [if_neg hgt]
      refine ⟨w, rfl, hws, fun s => ⟨Or.inl, ?_⟩⟩
      rintro (hs | ⟨y, hym, hyov, hygt, rfl⟩)
      · exact hs
      · -- `last` ends within `n`, and every other overlapped slice before `last`
        exfalso
        rcases rel_of_getLast?_eq hov.pairwise hlast y
            (List.mem_filter.mpr ⟨hym, by simpa using hyov⟩) with rfl | hyl
        · exact hgt hygt
        · omega

/-- Slices in offset order that are `n` and pieces kept of apart slices are apart: a byte of
`n` is in no kept piece, and the pieces holding a byte come from the one slice holding it. -/
theorem apart_of_mem_keeps (h : SlicesApart m) (hn : 0 < n.len) {m' : List FlatFileSlice}
    (hs : m'.Pairwise fun y z => y.fileOffset < z.fileOffset)
    (hmem : ∀ s, s ∈ m' ↔ s = n ∨ ∃ y ∈ m, Keeps n y s) : SlicesApart m' := by
  refine Apart.of_pairwise hs ?_ ?_
  · intro s hs
    rcases (hmem s).mp hs with rfl | ⟨y, hy, hk⟩
    · exact hn
    · exact hk.len_pos (h.len_pos y hy)
  · intro x hx x' hx' p hxp hxp'
    rcases (hmem x).mp hx with rfl | ⟨y, hy, hk⟩ <;>
      rcases (hmem x').mp hx' with rfl | ⟨y', hy', hk'⟩
    · rfl
    · exact absurd hxp (hk'.contains hxp').2
    · exact absurd hxp' (hk.contains hxp).2
    · have hyy : y = y' := h.eq_of_meets_point hy hy' (hk.contains hxp).1 (hk'.contains hxp').1
      subst hyy
      exact hk.eq_of_contains hk' hxp hxp'

/-- `FlatFileChunk::InsertChunkInfo` of a nonempty slice `n` into apart slices passes its
`CHECK`s and leaves apart slices: `n` and what `Keeps` keeps of each old slice. -/
theorem insertChunkInfo_spec (h : SlicesApart m) (hn : 0 < n.len) :
    ∃ m', insertChunkInfo m n = some m' ∧ SlicesApart m' ∧
      ∀ s, s ∈ m' ↔ s = n ∨ ∃ y ∈ m, Keeps n y s := by
  -- the map after the erase: the slices not overlapping `n`
  have he : ∀ y ∈ m.filter (fun y => !decide (n.Overlaps y)), y ∈ m ∧ ¬ n.Overlaps y := by
    intro y hy
    simpa using List.mem_filter.mp hy
  have hes := (h.sublist (List.filter_sublist (p := fun y => !decide (n.Overlaps y)))).pairwise_start_lt
  obtain ⟨wl, hwl, hwls, hwlmem⟩ := insertLeftSlice_spec h he hes
  have hwlr : ∀ y ∈ wl, y.fileOffset = n.fileOffset + n.len → y ∈ m ∧ ¬ n.Overlaps y := by
    intro y hy hyb
    rcases (hwlmem y).mp hy with hy | ⟨z, _, _, hzlt, rfl⟩
    · exact he y hy
    · simp only [leftPiece] at hyb
      omega
  obtain ⟨wr, hwr, hwrs, hwrmem⟩ := insertRightSlice_spec h hwlr hwls
  -- `n` goes in at a free offset
  have hfresh : ∀ y ∈ wr, y.fileOffset ≠ n.fileOffset := by
    intro y hy hyn
    rcases (hwrmem y).mp hy with hy | ⟨z, _, _, _, rfl⟩
    · rcases (hwlmem y).mp hy with hy | ⟨z, _, _, hzlt, rfl⟩
      · obtain ⟨hym, hyov⟩ := he y hy
        have := h.len_pos y hym
        exact hyov ⟨by omega, by omega⟩
      · simp only [leftPiece] at hyn
        omega
    · simp only [rightPiece] at hyn
      omega
  have hins := checkedInsert_of_fresh hfresh
  have hmem : ∀ s, s ∈ orderedSetInsert (fun y z => decide (y.fileOffset < z.fileOffset)) n wr ↔
      s = n ∨ ∃ y ∈ m, Keeps n y s := by
    intro s
    rw [(perm_of_checkedInsert hins).mem_iff, List.mem_cons, hwrmem, hwlmem, exists_keeps_iff]
    simp only [List.mem_filter, Bool.not_eq_true', decide_eq_false_iff_not, or_assoc]
  refine ⟨_, ?_, apart_of_mem_keeps h hn (pairwise_of_checkedInsert hins hwrs) hmem, hmem⟩
  simp only [insertChunkInfo]
  rw [erase_overlap_eq h, overlapSlices_eq h]
  simp only [hwl, hwr, Option.bind_eq_bind, Option.bind_some]
  exact hins

/-! ## A run of inserts into one chunk -/

/-- The slices a chunk holds after its infos `infos` went in, oldest first: apart, each inside
an info of its chunk id, each byte of a slice shown by the newest info covering it, and every
byte some info covers in a slice. -/
structure ChunkView (infos : List S3ChunkInfo) (m : List FlatFileSlice) : Prop where
  apart : SlicesApart m
  within : ∀ s ∈ m, ∃ i ∈ infos, i.chunkid = s.chunkId ∧ i.offset ≤ s.fileOffset ∧
    s.fileOffset + s.len ≤ i.offset + i.len
  newest : ∀ p, ∀ s ∈ m, s.Contains p →
    ∃ i, infos.reverse.find? (·.Covers p) = some i ∧ i.chunkid = s.chunkId
  complete : ∀ p, ∀ i ∈ infos, i.Covers p → ∃ s ∈ m, s.Contains p

theorem chunkView_nil : ChunkView [] [] :=
  ⟨⟨by simp, by simp⟩, by simp, by simp, by simp⟩

variable {infos : List S3ChunkInfo} {i : S3ChunkInfo}

/-- The slice of an info holds the bytes the info covers. -/
theorem contains_iff_covers {p : Nat} :
    (⟨i.offset, i.len, i.chunkid⟩ : FlatFileSlice).Contains p ↔ i.Covers p := by
  simp only [FlatFileSlice.Contains, Meets, S3ChunkInfo.Covers]
  omega

/-- The newest info covering `p` is the last one if it does. -/
theorem find?_covers_append_singleton {p : Nat} :
    (infos ++ [i]).reverse.find? (·.Covers p) =
      if i.Covers p then some i else infos.reverse.find? (·.Covers p) := by
  by_cases hc : i.Covers p
  · simp [hc]
  · simp [hc]

/-- One `InsertChunkInfo` of the slice of a nonempty info keeps the view: the step lemma of
the run over a chunk's infos. -/
theorem chunkView_insertChunkInfo (hv : ChunkView infos m) (hi : 0 < i.len) :
    ∃ m', insertChunkInfo m ⟨i.offset, i.len, i.chunkid⟩ = some m' ∧
      ChunkView (infos ++ [i]) m' := by
  obtain ⟨m', hins, hapart, hmem⟩ :=
    insertChunkInfo_spec (n := ⟨i.offset, i.len, i.chunkid⟩) hv.apart hi
  refine ⟨m', hins, hapart, ?_, ?_, ?_⟩
  · -- the new slice is its info's; a kept piece lies inside its slice
    intro s hs
    rcases (hmem s).mp hs with rfl | ⟨y, hy, hk⟩
    · exact ⟨i, List.mem_append_right _ (List.mem_singleton_self i), rfl, le_refl _, le_refl _⟩
    · obtain ⟨i', hi', hid, hlo, hhi⟩ := hv.within y hy
      have hle := hk.range_le
      exact ⟨i', List.mem_append_left _ hi', hid.trans hk.chunkId_eq.symm, by omega, by omega⟩
  · -- a byte of the new slice is the new info's; a kept piece's byte lies outside it
    intro p s hs hsp
    rw [find?_covers_append_singleton]
    rcases (hmem s).mp hs with rfl | ⟨y, hy, hk⟩
    · rw [if_pos (contains_iff_covers.mp hsp)]
      exact ⟨i, rfl, rfl⟩
    · obtain ⟨hyp, hnp⟩ := hk.contains hsp
      rw [if_neg fun hc => hnp (contains_iff_covers.mpr hc)]
      obtain ⟨i', hfind, hid⟩ := hv.newest p y hy hyp
      exact ⟨i', hfind, hid.trans hk.chunkId_eq.symm⟩
  · -- a byte outside the new slice stays in a piece of the slice that held it
    intro p i' hi' hcov
    by_cases hnp : (⟨i.offset, i.len, i.chunkid⟩ : FlatFileSlice).Contains p
    · exact ⟨_, (hmem _).mpr (Or.inl rfl), hnp⟩
    · rcases List.mem_append.mp hi' with hi' | hi'
      · obtain ⟨y, hy, hyp⟩ := hv.complete p i' hi' hcov
        obtain ⟨s, hk, hsp⟩ := Keeps.exists_of_contains hyp hnp
        exact ⟨s, (hmem s).mpr (Or.inr ⟨y, hy, hk⟩), hsp⟩
      · rw [List.mem_singleton.mp hi'] at hcov
        exact absurd (contains_iff_covers.mpr hcov) hnp

/-- Where no slice holds `p`, no info covers it. -/
theorem ChunkView.find?_eq_none {sl : List FlatFileSlice} {p : Nat} (hv : ChunkView infos sl)
    (hp : ∀ s ∈ sl, ¬ s.Contains p) : infos.reverse.find? (·.Covers p) = none := by
  rw [List.find?_eq_none]
  intro i hi hcov
  obtain ⟨s, hs, hsp⟩ := hv.complete p i (List.mem_reverse.mp hi) (by simpa using hcov)
  exact hp s hs hsp

end FlatFileChunk

/-- The row's range holds byte `p`. -/
def ObjectRow.Contains (p : Nat) (r : ObjectRow) : Prop :=
  r.fileOffset ≤ p ∧ p < r.fileOffset + r.len

instance (p : Nat) (r : ObjectRow) : Decidable (r.Contains p) :=
  inferInstanceAs (Decidable (_ ∧ _))

/-- The object and the offset in it that a row gives for a byte `p` of its range. -/
def ObjectRow.locate (p : Nat) (r : ObjectRow) : BlockKey × Nat :=
  (r.blockName, r.blockOffset + (p - r.fileOffset))

/-- What the listing gives for byte `p` of info `i`: the key of the object of `p`'s block,
numbered from the info's first block as `Init` numbers it, and `p`'s offset in that object. -/
def listedAt (fsId ino blockSize : Nat) (i : S3ChunkInfo) (p : Nat) : BlockKey × Nat :=
  (⟨fsId, ino, i.chunkid, p / blockSize - i.offset / blockSize, i.compaction⟩,
    p - max i.offset (p / blockSize * blockSize))

/-! ## The file: holders and chunks over the run -/

namespace FlatFile

/-- The holder `S3ChunkHoler`'s constructor makes of a nonempty info (`init_eq`). -/
def holderOf (blockSize : Nat) (chunkInfo : S3ChunkInfo) : S3ChunkHoler :=
  ⟨chunkInfo, blockSize,
    (blocksOf blockSize chunkInfo.offset (chunkInfo.len + chunkInfo.offset)).map
      (S3ChunkHoler.blockObjOf blockSize chunkInfo)⟩

/-- The infos of chunk index `c` among the `(chunk index, info)` pairs gone in, in order. -/
def infosOf (done : List (Nat × S3ChunkInfo)) (c : Nat) : List S3ChunkInfo :=
  (done.filter (·.1 = c)).map (·.2)

theorem infosOf_append_singleton {done : List (Nat × S3ChunkInfo)} {c c' : Nat}
    {i : S3ChunkInfo} :
    infosOf (done ++ [(c, i)]) c' = if c' = c then infosOf done c' ++ [i] else infosOf done c' := by
  by_cases hc : c' = c
  · simp [infosOf, hc]
  · simp [infosOf, hc, Ne.symm hc]

/-- Of the pairs of a map's entries, those of chunk `c` are its list. Induction on the
entries. -/
theorem infosOf_flatMap (c : Nat) :
    ∀ es : List (Σ _ : Nat, S3ChunkInfoList), es.NodupKeys →
      infosOf (es.flatMap fun e => e.2.map ((e.1, ·))) c = (es.dlookup c).getD []
  | [], _ => rfl
  | ⟨k, is⟩ :: es, hnd => by
    obtain ⟨hk, hnd⟩ := List.nodupKeys_cons.mp hnd
    have ih := infosOf_flatMap c es hnd
    simp only [infosOf] at ih ⊢
    rw [List.flatMap_cons, List.filter_append, List.map_append, ih]
    by_cases hc : k = c
    · -- the later entries lack `c`
      subst hc
      rw [List.dlookup_cons_eq, List.dlookup_eq_none.mpr hk]
      simp [List.filter_map, Function.comp_def]
    · rw [List.dlookup_cons_ne _ _ (Ne.symm hc)]
      simp [hc]

/-- A `FlatFile` of fs `fsId`, inode `ino` and block size `blockSize` after the pairs `done`
went in, oldest first: one holder per info, the chunks in index order, and the slices of each
chunk index its view of that index's infos. -/
structure FileView (fsId ino blockSize : Nat) (done : List (Nat × S3ChunkInfo))
    (ff : FlatFile) : Prop where
  fsId_eq : ff.fsId = fsId
  ino_eq : ff.ino = ino
  blockSize_eq : ff.blockSize = blockSize
  holders : ff.chunkIdToS3ChunkHoler.Perm (done.map fun x => holderOf blockSize x.2)
  keys : ff.chunkIndexFlatFileChunk.Pairwise fun a b => a.1 < b.1
  chunks : ∀ c, FlatFileChunk.ChunkView (infosOf done c)
    ((ff.chunkIndexFlatFileChunk.lookup c).getD [])

variable {fsId ino blockSize : Nat} {done : List (Nat × S3ChunkInfo)} {ff : FlatFile}

theorem fileView_nil : FileView fsId ino blockSize [] ⟨fsId, ino, blockSize, [], []⟩ :=
  ⟨rfl, rfl, rfl, List.Perm.refl _, List.Pairwise.nil,
    fun _ => FlatFileChunk.chunkView_nil⟩

/-- `FlatFile::InsertChunkInfo` of a nonempty info with a new chunk id passes its `CHECK`s and
keeps the view: the step lemma of the run over the inode's infos. -/
theorem fileView_insertChunkInfo (hv : FileView fsId ino blockSize done ff)
    (hbs : 0 < blockSize) {c : Nat} {i : S3ChunkInfo} (hi : 0 < i.len)
    (hid : i.chunkid ∉ done.map (·.2.chunkid)) :
    ∃ ff', ff.insertChunkInfo c i = some ff' ∧ FileView fsId ino blockSize (done ++ [(c, i)]) ff' := by
  have hinit : S3ChunkHoler.init i ff.blockSize = some (holderOf blockSize i) := by
    rw [hv.blockSize_eq]
    exact S3ChunkHoler.init_eq hbs hi
  -- every holder there is of an info gone in, whose chunk id is not `i`'s
  have hfresh : ∀ h ∈ ff.chunkIdToS3ChunkHoler,
      h.chunkInfo.chunkid ≠ (holderOf blockSize i).chunkInfo.chunkid := by
    intro h hh heq
    obtain ⟨x, hx, rfl⟩ := List.mem_map.mp (hv.holders.subset hh)
    exact hid (List.mem_map.mpr ⟨x, hx, heq⟩)
  have hins := checkedInsert_of_fresh hfresh
  obtain ⟨m', hm', hview⟩ := FlatFileChunk.chunkView_insertChunkInfo (hv.chunks c) hi
  refine ⟨{ ff with
      chunkIdToS3ChunkHoler := orderedSetInsert
        (fun y z => decide (y.chunkInfo.chunkid < z.chunkInfo.chunkid)) (holderOf blockSize i)
        ff.chunkIdToS3ChunkHoler
      chunkIndexFlatFileChunk := orderedMapAssign c m' ff.chunkIndexFlatFileChunk },
    ?_, ⟨hv.fsId_eq, hv.ino_eq, hv.blockSize_eq, ?_, pairwise_orderedMapAssign hv.keys,
      fun c' => ?_⟩⟩
  · simp only [insertChunkInfo, hinit, hins, hm', Option.bind_eq_bind, Option.bind_some]
    rfl
  · -- the holders are the old ones and `i`'s
    rw [List.map_append]
    exact (perm_of_checkedInsert hins).trans
      ((hv.holders.cons _).trans (List.perm_append_singleton _ _).symm)
  · -- chunk `c` gets `i`'s slice, the others stay
    simp only
    rw [lookup_orderedMapAssign, infosOf_append_singleton]
    by_cases hc : c' = c
    · subst hc
      simpa using hview
    · simpa [hc] using hv.chunks c'

/-- The inserts of one chunk's infos, one after another. Induction on the infos, with the file
and the pairs gone in as accumulators. -/
theorem fileView_foldlM_infos (hbs : 0 < blockSize) (c : Nat) :
    ∀ (is : List S3ChunkInfo) (done : List (Nat × S3ChunkInfo)) (ff : FlatFile),
      FileView fsId ino blockSize done ff → (∀ i ∈ is, 0 < i.len) →
      (done.map (·.2.chunkid) ++ is.map (·.chunkid)).Nodup →
      ∃ ff', is.foldlM (fun ff i => ff.insertChunkInfo c i) ff = some ff' ∧
        FileView fsId ino blockSize (done ++ is.map ((c, ·))) ff'
  | [], done, ff, hv, _, _ => ⟨ff, rfl, by simpa using hv⟩
  | i :: is, done, ff, hv, hlen, hnodup => by
    have hid : i.chunkid ∉ done.map (·.2.chunkid) := fun h =>
      (List.nodup_append.mp hnodup).2.2 _ h _ List.mem_cons_self rfl
    obtain ⟨ff₁, h₁, hv₁⟩ := fileView_insertChunkInfo hv hbs (hlen i List.mem_cons_self) hid
    obtain ⟨ff', h', hv'⟩ := fileView_foldlM_infos hbs c is (done ++ [(c, i)]) ff₁ hv₁
      (fun i hi => hlen i (List.mem_cons_of_mem _ hi)) (by simpa using hnodup)
    refine ⟨ff', ?_, by simpa using hv'⟩
    rw [List.foldlM_cons, h₁]
    exact h'

/-- The inserts of every chunk's infos, chunk after chunk. Induction on the chunks. -/
theorem fileView_foldlM_chunks (hbs : 0 < blockSize) :
    ∀ (es : List (Σ _ : Nat, S3ChunkInfoList)) (done : List (Nat × S3ChunkInfo)) (ff : FlatFile),
      FileView fsId ino blockSize done ff → (∀ e ∈ es, ∀ i ∈ e.2, 0 < i.len) →
      (done.map (·.2.chunkid) ++ (es.flatMap (·.2)).map (·.chunkid)).Nodup →
      ∃ ff', es.foldlM (fun flatFile chunk => chunk.2.foldlM
          (fun flatFile chunkInfo => flatFile.insertChunkInfo chunk.1 chunkInfo) flatFile) ff =
          some ff' ∧
        FileView fsId ino blockSize (done ++ es.flatMap fun e => e.2.map ((e.1, ·))) ff'
  | [], done, ff, hv, _, _ => ⟨ff, rfl, by simpa using hv⟩
  | e :: es, done, ff, hv, hlen, hnodup => by
    rw [List.flatMap_cons, List.map_append, ← List.append_assoc] at hnodup
    obtain ⟨ff₁, h₁, hv₁⟩ := fileView_foldlM_infos hbs e.1 e.2 done ff hv
      (hlen e List.mem_cons_self) (List.nodup_append.mp hnodup).1
    obtain ⟨ff', h', hv'⟩ := fileView_foldlM_chunks hbs es _ ff₁ hv₁
      (fun e he => hlen e (List.mem_cons_of_mem _ he)) (by simpa [Function.comp_def] using hnodup)
    refine ⟨ff', ?_, by simpa using hv'⟩
    rw [List.foldlM_cons, h₁]
    exact h'

/-! ## The rows of the file -/

/-- The rows of a slice inside an info gone in: for a byte `p` of the slice, the row of the part
of the object of `p`'s block; none for a byte outside the slice. -/
theorem sliceRows_locate (hv : FileView fsId ino blockSize done ff) (hbs : 0 < blockSize)
    (hnodup : (done.map (·.2.chunkid)).Nodup) {s : FlatFileSlice} {i : S3ChunkInfo}
    (hi : i ∈ done.map (·.2)) (hid : i.chunkid = s.chunkId) (hlo : i.offset ≤ s.fileOffset)
    (hhi : s.fileOffset + s.len ≤ i.offset + i.len) (hslen : 0 < s.len) :
    ∃ rows, ff.sliceRows s = some rows ∧ ∀ p,
      (rows.filter fun r => decide (r.Contains p)).map (ObjectRow.locate p) =
        if s.Contains p then [listedAt fsId ino blockSize i p] else [] := by
  obtain ⟨x, hx, rfl⟩ := List.mem_map.mp hi
  -- the holder found by chunk id is `x`'s: chunk ids are distinct
  have hfind : ff.chunkIdToS3ChunkHoler.find? (fun h => decide (h.chunkInfo.chunkid = s.chunkId)) =
      some (holderOf blockSize x.2) := by
    have hmem : holderOf blockSize x.2 ∈ ff.chunkIdToS3ChunkHoler :=
      hv.holders.mem_iff.mpr (List.mem_map_of_mem hx)
    cases hf : ff.chunkIdToS3ChunkHoler.find? (fun h => decide (h.chunkInfo.chunkid = s.chunkId))
      with
    | none => exact absurd (decide_eq_true hid) (List.find?_eq_none.mp hf _ hmem)
    | some h =>
      have hpred : h.chunkInfo.chunkid = s.chunkId := by simpa using List.find?_some hf
      obtain ⟨y, hy, rfl⟩ := List.mem_map.mp (hv.holders.subset (List.mem_of_find?_eq_some hf))
      rw [List.inj_on_of_nodup_map hnodup hy hx (hpred.trans hid.symm)]
  obtain ⟨objSlices, hget, hfilter⟩ :=
    S3ChunkHoler.getBlockObjSlice_filter hbs hid.symm hlo (by omega) hslen
  refine ⟨objSlices.map ff.row, ?_, fun p => ?_⟩
  · simp only [sliceRows, hfind, Option.bind_eq_bind, Option.bind_some, holderOf, hget]
    rfl
  · -- a row holds the bytes of its object slice
    have hrow : ((objSlices.map ff.row).filter fun r => decide (r.Contains p)) =
        (objSlices.filter fun o =>
          decide (Meets BlockObjSlice.fileOffset BlockObjSlice.len p (p + 1) o)).map ff.row := by
      rw [List.filter_map]
      congr 1
      apply List.filter_congr
      intro o _
      rw [Function.comp_apply, decide_eq_decide]
      simp only [ObjectRow.Contains, row, Meets]
      omega
    rw [hrow, hfilter p]
    split_ifs with hp
    · -- the byte lies past the start of its object and of the slice
      have hobj := S3ChunkHoler.meets_blockObjOf hbs (show x.2.offset ≤ p by have := hp.1; omega)
        (show p < x.2.len + x.2.offset by have := hp.2; omega)
      have hsp := hp.1
      have ho := hobj.1
      simp only [S3ChunkHoler.blockObjOf] at ho
      simp only [List.map_cons, List.map_nil, ObjectRow.locate, row, S3ChunkHoler.objSlice, listedAt,
        S3ChunkHoler.blockObjOf, hv.fsId_eq, hv.ino_eq, List.cons.injEq, Prod.mk.injEq, and_true,
        true_and]
      generalize max x.2.offset (p / blockSize * blockSize) = o at ho ⊢
      simp only [Nat.max_def]
      split_ifs <;> omega
    · rfl

/-- The rows of a chunk's slices: for a byte `p`, the listing of the newest of the chunk's infos
covering `p`, if one does. -/
theorem chunkRows_locate (hv : FileView fsId ino blockSize done ff) (hbs : 0 < blockSize)
    (hnodup : (done.map (·.2.chunkid)).Nodup) {c : Nat} {sl : List FlatFileSlice}
    (hcv : FlatFileChunk.ChunkView (infosOf done c) sl) :
    ∃ rows, (sl.mapM ff.sliceRows).map List.flatten = some rows ∧ ∀ p,
      (rows.filter fun r => decide (r.Contains p)).map (ObjectRow.locate p) =
        ((infosOf done c).reverse.find? (·.Covers p)).toList.map (listedAt fsId ino blockSize · p) := by
  have hsub : ∀ i ∈ infosOf done c, i ∈ done.map (·.2) := by
    intro i hi
    obtain ⟨x, hx, rfl⟩ := List.mem_map.mp hi
    exact List.mem_map_of_mem (List.mem_of_mem_filter hx)
  have hnodup' : ((done.map (·.2)).map (·.chunkid)).Nodup := by
    rw [List.map_map]
    exact hnodup
  -- each slice lies inside its info, the newest covering each of its bytes
  have hslice : ∀ s ∈ sl, ∃ rows, ff.sliceRows s = some rows ∧ ∀ p,
      (rows.filter fun r => decide (r.Contains p)).map (ObjectRow.locate p) =
        if s.Contains p then
          ((infosOf done c).reverse.find? (·.Covers p)).toList.map (listedAt fsId ino blockSize · p)
        else [] := by
    intro s hs
    obtain ⟨i, hi, hid, hlo, hhi⟩ := hcv.within s hs
    obtain ⟨rows, hrows, hloc⟩ :=
      sliceRows_locate hv hbs hnodup (hsub i hi) hid hlo hhi (hcv.apart.len_pos s hs)
    refine ⟨rows, hrows, fun p => ?_⟩
    rw [hloc p]
    split_ifs with hsp
    · obtain ⟨i', hfind, hid'⟩ := hcv.newest p s hs hsp
      have hi' : i' ∈ infosOf done c := List.mem_reverse.mp (List.mem_of_find?_eq_some hfind)
      rw [hfind, List.inj_on_of_nodup_map hnodup' (hsub i' hi') (hsub i hi) (hid'.trans hid.symm)]
      rfl
    · rfl
  obtain ⟨rows, hrows, hF⟩ := mapM_flatten_filter ff.sliceRows (fun p r => decide (r.Contains p))
    ObjectRow.locate _ sl hslice
  refine ⟨rows, hrows, fun p => ?_⟩
  rw [hF p, flatMap_ite_eq]
  by_cases hp : ∃ s ∈ sl, s.Contains p
  · -- one slice holds `p`
    obtain ⟨s, hs, hsp⟩ := hp
    rw [hcv.apart.filter_meets_point hs hsp, List.flatMap_singleton]
  · -- no slice holds `p`, so no info covers it
    have hnil : sl.filter (fun s => decide (s.Contains p)) = [] :=
      List.filter_eq_nil_iff.mpr fun s hs hsp => hp ⟨s, hs, by simpa using hsp⟩
    rw [hnil, hcv.find?_eq_none fun s hs hsp => hp ⟨s, hs, hsp⟩]
    rfl

/-- `FormatStringWithHeader`'s rows: for a byte `p`, each chunk index gives the listing of the
newest of its infos covering `p`. -/
theorem formatStringWithHeader_locate (hv : FileView fsId ino blockSize done ff)
    (hbs : 0 < blockSize) (hnodup : (done.map (·.2.chunkid)).Nodup) :
    ∃ rows, ff.formatStringWithHeader = some rows ∧ ∀ p,
      (rows.filter fun r => decide (r.Contains p)).map (ObjectRow.locate p) =
        ff.chunkIndexFlatFileChunk.flatMap fun x =>
          ((infosOf done x.1).reverse.find? (·.Covers p)).toList.map
            (listedAt fsId ino blockSize · p) := by
  obtain ⟨rows, hrows, hF⟩ := mapM_flatten_filter
    (fun (flatFileChunk : Nat × List FlatFileSlice) =>
      (flatFileChunk.2.mapM ff.sliceRows).map List.flatten)
    (fun p r => decide (r.Contains p)) ObjectRow.locate
    (fun x p => ((infosOf done x.1).reverse.find? (·.Covers p)).toList.map
      (listedAt fsId ino blockSize · p)) ff.chunkIndexFlatFileChunk fun x hx => by
      -- each chunk's slices are its view, found by its index
      have hcv := hv.chunks x.1
      rw [lookup_of_mem hv.keys hx, Option.getD_some] at hcv
      exact chunkRows_locate hv hbs hnodup hcv
  exact ⟨rows, hrows, hF⟩

end FlatFile

/-! ## The listing against the writers -/

/-- For a byte `p` of an info in the chunk of `p`, `Init`'s numbering from the info's first
block is the writers' numbering from the chunk's first block less the block the info starts
in, and the object starts at the later of the info's start and the block's. -/
theorem listedAt_of_same_chunk {fsId ino blockSize chunkSize : Nat} (hbs : 0 < blockSize)
    (hdvd : blockSize ∣ chunkSize) {i : S3ChunkInfo} {p : Nat}
    (hi : i.offset / chunkSize = p / chunkSize) :
    listedAt fsId ino blockSize i p =
      (⟨fsId, ino, i.chunkid, p % chunkSize / blockSize - i.offset % chunkSize / blockSize,
          i.compaction⟩,
        p - max i.offset (p / chunkSize * chunkSize + p % chunkSize / blockSize * blockSize)) := by
  have hp := div_eq_mod_div_add hbs hdvd p
  have hio := div_eq_mod_div_add hbs hdvd i.offset
  have hblock : p / blockSize * blockSize =
      p / chunkSize * chunkSize + p % chunkSize / blockSize * blockSize := by
    rw [hp, Nat.add_mul, Nat.mul_assoc, Nat.div_mul_cancel hdvd, Nat.add_comm]
  have hindex : p / blockSize - i.offset / blockSize =
      p % chunkSize / blockSize - i.offset % chunkSize / blockSize := by
    rw [hp, hio, hi]
    omega
  rw [listedAt, hblock, hindex]

theorem defaultMethod_names_block_from_info_start (fsId ino blockSize chunkSize : Nat)
    (s3chunkinfomap : S3ChunkInfoMap) (hbs : 0 < blockSize) (hdvd : blockSize ∣ chunkSize)
    (hlen : ∀ e ∈ s3chunkinfomap.entries, ∀ i ∈ e.2, 0 < i.len)
    (hin : ∀ e ∈ s3chunkinfomap.entries, ∀ i ∈ e.2,
      e.1 * chunkSize ≤ i.offset ∧ i.offset + i.len ≤ (e.1 + 1) * chunkSize)
    (hids : ((s3chunkinfomap.entries.flatMap (·.2)).map (·.chunkid)).Nodup) :
    ∃ rows, InodeObjectsService.defaultMethod fsId ino blockSize s3chunkinfomap = some rows ∧
      ∀ p, (rows.filter fun r => decide (r.Contains p)).map (ObjectRow.locate p) =
        (((s3chunkinfomap.lookup (p / chunkSize)).getD []).reverse.find? (·.Covers p)).toList.map
          fun i => (⟨fsId, ino, i.chunkid,
              p % chunkSize / blockSize - i.offset % chunkSize / blockSize, i.compaction⟩,
            p - max i.offset (p / chunkSize * chunkSize + p % chunkSize / blockSize * blockSize)) := by
  obtain ⟨ff, hfold, hv⟩ := FlatFile.fileView_foldlM_chunks hbs s3chunkinfomap.entries [] _
    (@FlatFile.fileView_nil fsId ino blockSize) hlen (by simpa using hids)
  -- the pairs gone in: each chunk index with each info of its list
  set done := [] ++ s3chunkinfomap.entries.flatMap fun e => e.2.map ((e.1, ·)) with hdone
  have hnodup : (done.map (·.2.chunkid)).Nodup := by
    simpa [hdone, List.map_flatMap, Function.comp_def] using hids
  obtain ⟨rows, hrows, hloc⟩ := FlatFile.formatStringWithHeader_locate hv hbs hnodup
  refine ⟨rows, ?_, fun p => ?_⟩
  · simp only [InodeObjectsService.defaultMethod, hfold, Option.bind_eq_bind, Option.bind_some]
    exact hrows
  -- the infos gone in under chunk index `c` are its list, inside chunk `c`
  have hinfos : ∀ c, FlatFile.infosOf done c = (s3chunkinfomap.lookup c).getD [] := by
    intro c
    rw [hdone, List.nil_append, FlatFile.infosOf_flatMap c _ s3chunkinfomap.nodupKeys]
    rfl
  have hchunk : ∀ c, ∀ i ∈ (s3chunkinfomap.lookup c).getD [], i.Covers p →
      c = p / chunkSize ∧ i.offset / chunkSize = p / chunkSize := by
    intro c i hi hcov
    cases hl : s3chunkinfomap.lookup c with
    | none =>
      rw [hl] at hi
      cases hi
    | some l =>
      rw [hl, Option.getD_some] at hi
      obtain ⟨h₁, h₂⟩ := hin ⟨c, l⟩ (AList.mem_lookup_iff.mp hl) i hi
      dsimp only at h₁ h₂
      obtain ⟨hc₁, hc₂⟩ := hcov
      exact ⟨(div_eq_of_mem_block (by omega) (by omega)).symm,
        (div_eq_of_mem_block h₁ (by omega)).trans (div_eq_of_mem_block (by omega) (by omega)).symm⟩
  -- only chunk `p / chunkSize` lists `p`
  rw [hloc p, flatMap_key_eq (g := fun c => ((FlatFile.infosOf done c).reverse.find?
      (·.Covers p)).toList.map (listedAt fsId ino blockSize · p)) (c := p / chunkSize) ?_ hv.keys ?_]
  · -- the newest info covering `p` lies in the chunk of `p`
    rw [hinfos]
    apply List.map_congr_left
    intro i hi
    have hfind : _ = some i := Option.mem_toList.mp hi
    have hcov : i.Covers p := by simpa using List.find?_some hfind
    exact listedAt_of_same_chunk hbs hdvd
      (hchunk _ i (List.mem_reverse.mp (List.mem_of_find?_eq_some hfind)) hcov).2
  · -- another chunk's infos do not cover `p`
    intro c' hc'
    rw [hinfos, List.find?_eq_none.mpr]
    · rfl
    · intro i hi hcov
      exact hc' (hchunk c' i (List.mem_reverse.mp hi) (by simpa using hcov)).1
  · -- without slices for the chunk of `p`, no info of it covers `p`
    intro hnone
    have hcv := hv.chunks (p / chunkSize)
    rw [hnone, Option.getD_none] at hcv
    rw [hcv.find?_eq_none fun s hs => by cases hs]
    rfl

/-- An info of 4 bytes at offset 4 of an 8-byte chunk with 4-byte blocks: the listing names
its byte 4 in block 0, where `PrepareFlushTasks` put it in block 1. -/
theorem defaultMethod_lists_second_block_as_first :
    ∃ rows, InodeObjectsService.defaultMethod 1 1 4
        (AList.insert 0 [⟨7, 0, 4, 4, 4, false⟩] ∅) = some rows ∧
      (rows.filter fun r => decide (r.Contains 4)).map (ObjectRow.locate 4) =
        [(⟨1, 1, 7, 0, 0⟩, 0)] ∧
      (prepareFlushTasks 1 1 7 4 4 [0, 0, 0, 0]).map Prod.fst = [⟨1, 1, 7, 1, 0⟩] := by
  obtain ⟨rows, hrows, hp⟩ := defaultMethod_names_block_from_info_start 1 1 4 8
    (AList.insert 0 [⟨7, 0, 4, 4, 4, false⟩] ∅) (by decide) (by decide) (by decide) (by decide)
    (by decide)
  exact ⟨rows, hrows, by rw [hp 4]; decide, by decide⟩

end DingoFs.Client
