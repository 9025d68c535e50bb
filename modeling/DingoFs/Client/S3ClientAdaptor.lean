import DingoFs.Client.S3CacheManager
import DingoFs.Lib.PageWalk

/-!
# `S3ClientAdaptorImpl::Truncate`: extending a file with a hole

Truncating a file to a larger `size` appends, to the inode's chunk-info map, one zero info per
chunk that `[fileSize, size)` touches, each with a chunk id of its own. The ids come from one
`AllocS3ChunkId` call for `len / chunkSize + 1` of them, `len = size - fileSize`; the loop
takes the next id each round and asserts that it is still one of them.

The loop is the round shape of `DingoFs.Lib.walkRounds` over the chunks of the range. A range
that starts `fileSize % chunkSize` into its first chunk touches one chunk more than
`len / chunkSize + 1` when that offset and `len % chunkSize` add up past a chunk:
`truncate_uses_unallocated_chunkId` shows the last info then carrying the id just past the
allocated ones, with the assertion failed.
-/

namespace DingoFs.Client

open DingoFs.Lib DingoFs.Metaserver

/-- The state of the extending loop of `Truncate`: the inode's chunk-info map, the file offset
reached, the next chunk id, and whether every `assert(chunkId <= beginChunkId + chunkIdNum - 1)`
so far held (a build without assertions goes on past a failed one). -/
structure TruncateState where
  s3ChunkInfoMap : S3ChunkInfoMap
  offset : Nat
  chunkId : Nat
  asserted : Bool

/-- `add_s3chunks` on the list of chunk `index`, made when the map lacks it. -/
def appendChunkInfo (m : S3ChunkInfoMap) (index : Nat) (info : S3ChunkInfo) : S3ChunkInfoMap :=
  match m.lookup index with
  | none => m.insert index [info]
  | some l => m.insert index (l ++ [info])

/-- A round of the loop: a zero info of the `n` bytes from `offset` in chunk `index`. -/
def truncateRound (beginChunkId chunkIdNum : Nat) (s : TruncateState) (index _chunkPos n : Nat) :
    TruncateState :=
  { s3ChunkInfoMap := appendChunkInfo s.s3ChunkInfoMap index ⟨s.chunkId, 0, s.offset, n, n, true⟩
    offset := s.offset + n
    chunkId := s.chunkId + 1
    asserted := s.asserted && decide (s.chunkId ≤ beginChunkId + chunkIdNum - 1) }

/-- `S3ClientAdaptorImpl::Truncate` of an inode of length `fileSize` with chunk-info map `m` to
`size`, where `allocS3ChunkId n` is the first of `n` ids `AllocS3ChunkId` gives (`none` when it
fails). A shrink only drops the file's caches, which this model leaves out. -/
def truncate (chunkSize : Nat) (allocS3ChunkId : Nat → Option Nat) (m : S3ChunkInfoMap)
    (fileSize size : Nat) : DingofsError × TruncateState :=
  if size ≤ fileSize then (.OK, ⟨m, fileSize, 0, true⟩)
  else
    let len := size - fileSize
    -- `uint32_t chunkIdNum`
    let chunkIdNum := (len / chunkSize + 1) % 2 ^ 32
    match allocS3ChunkId chunkIdNum with
    | none => (.INTERNAL, ⟨m, fileSize, 0, true⟩)
    | some beginChunkId =>
      (.OK, walkRounds chunkSize (truncateRound beginChunkId chunkIdNum) len
        (fileSize / chunkSize) (fileSize % chunkSize) len ⟨m, fileSize, beginChunkId, true⟩)

/-- The map holds `info` in the list of some chunk. -/
def holdsInfo (m : S3ChunkInfoMap) (info : S3ChunkInfo) : Prop :=
  ∃ index l, m.lookup index = some l ∧ info ∈ l

section Append

variable {m : S3ChunkInfoMap} {index : Nat} {info : S3ChunkInfo}

theorem holdsInfo_appendChunkInfo_self : holdsInfo (appendChunkInfo m index info) info := by
  unfold appendChunkInfo
  split <;> exact ⟨index, _, AList.lookup_insert _, by simp⟩

theorem holdsInfo_appendChunkInfo {info' : S3ChunkInfo} (h : holdsInfo m info') :
    holdsInfo (appendChunkInfo m index info) info' := by
  obtain ⟨i, l, hl, hmem⟩ := h
  by_cases hi : i = index
  · subst hi
    unfold appendChunkInfo
    rw [hl]
    exact ⟨i, _, AList.lookup_insert _, List.mem_append_left _ hmem⟩
  · unfold appendChunkInfo
    split <;> exact ⟨i, l, by rwa [AList.lookup_insert_ne hi], hmem⟩

end Append

section Rounds

variable {cs : Nat}

/-- The position before a chunk boundary lies in the chunk before it. -/
theorem pred_div_add_one (hcs : 0 < cs) {y : Nat} (hy : 0 < y) (hmod : y % cs = 0) :
    (y - 1) / cs + 1 = y / cs := by
  obtain ⟨k, rfl⟩ := Nat.dvd_of_mod_eq_zero hmod
  obtain ⟨j, rfl⟩ : ∃ j, k = j + 1 := ⟨k - 1, by
    rcases k with _ | k
    · simp at hy
    · simp⟩
  have h : cs * (j + 1) - 1 = cs * j + (cs - 1) := by rw [Nat.mul_succ]; omega
  rw [h, Nat.mul_add_div hcs, Nat.div_eq_of_lt (by omega), Nat.mul_div_cancel_left _ hcs]

/-- The rounds the loop has made once it has reached `y`: one per chunk of `[fileSize, y)`. -/
def roundsTo (cs fileSize y : Nat) : Nat := if y = fileSize then 0 else (y - 1) / cs + 1 - fileSize / cs

/-- A round from the loop's start or a chunk boundary adds one round. -/
theorem roundsTo_add_round (hcs : 0 < cs) {fileSize y n : Nat} (hfy : fileSize ≤ y)
    (hstart : y = fileSize ∨ y % cs = 0) (hn : 0 < n) (hin : y % cs + n ≤ cs) :
    roundsTo cs fileSize (y + n) = roundsTo cs fileSize y + 1 := by
  have hdiv : (y + n - 1) / cs = y / cs := div_eq_of_mod_add_le hin (by omega) (by omega)
  have hle : fileSize / cs ≤ y / cs := Nat.div_le_div_right hfy
  unfold roundsTo
  rw [if_neg (by omega), hdiv]
  by_cases hy : y = fileSize
  · rw [if_pos hy, hy]; omega
  · have hmod : y % cs = 0 := hstart.resolve_left hy
    rw [if_neg hy, pred_div_add_one hcs (by omega) hmod]
    omega

end Rounds

/-- What the loop keeps after the rounds to `y`: the id it takes next, the offset, whether the
assertions held (exactly while the rounds stay within the `chunkIdNum` ids), and, once a round
has taken the id just past them, an info in the map that carries it. -/
structure TruncateInv (cs fileSize beginChunkId chunkIdNum y : Nat) (s : TruncateState) : Prop where
  chunkId : s.chunkId = beginChunkId + roundsTo cs fileSize y
  offset : s.offset = y
  asserted : s.asserted = true ↔ roundsTo cs fileSize y ≤ chunkIdNum
  past : chunkIdNum < roundsTo cs fileSize y →
    ∃ info, holdsInfo s.s3ChunkInfoMap info ∧ info.zero = true ∧
      info.chunkid = beginChunkId + chunkIdNum

/-- One round keeps `TruncateInv`. -/
theorem TruncateInv.round {cs fileSize b N y : Nat} {s : TruncateState} (hcs : 0 < cs) (hN : 0 < N)
    (hfy : fileSize ≤ y) (hstart : y = fileSize ∨ y % cs = 0) {n : Nat} (hn : 0 < n)
    (hin : y % cs + n ≤ cs) (h : TruncateInv cs fileSize b N y s) (index pos : Nat) :
    TruncateInv cs fileSize b N (y + n) (truncateRound b N s index pos n) := by
  have hr := roundsTo_add_round hcs hfy hstart hn hin
  obtain ⟨hid, hoff, hass, hpast⟩ := h
  refine ⟨?_, ?_, ?_, ?_⟩
  · simp only [truncateRound, hid, hr]; omega
  · simp only [truncateRound, hoff]
  · simp only [truncateRound, Bool.and_eq_true, hass, decide_eq_true_iff, hid, hr]
    omega
  · intro hlt
    rw [hr] at hlt
    by_cases hpre : N < roundsTo cs fileSize y
    · -- the info was appended in an earlier round and stays
      obtain ⟨info, hh, hz, hc⟩ := hpast hpre
      exact ⟨info, holdsInfo_appendChunkInfo hh, hz, hc⟩
    · -- this round takes the id just past the allocated ones
      exact ⟨_, holdsInfo_appendChunkInfo_self, rfl, show s.chunkId = b + N by omega⟩

/-- The range `[fileSize, size)` touches one chunk more than `len / chunkSize + 1` when its
offset in the first chunk and `len % chunkSize` add up past a chunk. -/
theorem roundsTo_size_of_cross (hcs : 0 < cs) {fileSize size : Nat} (hlt : fileSize < size)
    (hcross : cs < fileSize % cs + (size - fileSize) % cs) :
    roundsTo cs fileSize size = (size - fileSize) / cs + 2 := by
  have hdiv : (size - 1) / cs = fileSize / cs + (size - fileSize) / cs + 1 := by
    have h₁ := Nat.div_add_mod fileSize cs
    have h₂ := Nat.div_add_mod (size - fileSize) cs
    have hr := Nat.mod_lt fileSize hcs
    have hu := Nat.mod_lt (size - fileSize) hcs
    -- `fileSize = cs * q + r` and `size - fileSize = cs * t + u`, with `cs < r + u`
    generalize fileSize / cs = q at h₁ ⊢
    generalize (size - fileSize) / cs = t at h₂ ⊢
    generalize fileSize % cs = r at h₁ hr hcross
    generalize (size - fileSize) % cs = u at h₂ hu hcross
    refine Nat.div_eq_of_lt_le ?_ ?_
    · rw [Nat.add_mul, Nat.add_mul, Nat.one_mul, Nat.mul_comm q, Nat.mul_comm t]; omega
    · rw [Nat.add_mul, Nat.add_mul, Nat.add_mul, Nat.one_mul, Nat.mul_comm q, Nat.mul_comm t]
      omega
  unfold roundsTo
  rw [if_neg (by omega), hdiv]
  generalize fileSize / cs = q
  generalize (size - fileSize) / cs = t
  omega

/-- Extending a file whose hole crosses one more chunk boundary than `len / chunkSize` counts
(the first chunk's offset and `len % chunkSize` add up past a chunk): `Truncate` returns `OK`,
its assertion failed, and the chunk-info map holds a zero info with the chunk id just past the
`chunkIdNum` allocated ones. -/
theorem truncate_uses_unallocated_chunkId (chunkSize : Nat) (allocS3ChunkId : Nat → Option Nat)
    (m : S3ChunkInfoMap) (fileSize size b : Nat) (hcs : 0 < chunkSize) (hlt : fileSize < size)
    (hcross : chunkSize < fileSize % chunkSize + (size - fileSize) % chunkSize)
    (hnum : (size - fileSize) / chunkSize + 1 < 2 ^ 32)
    (halloc : allocS3ChunkId ((size - fileSize) / chunkSize + 1) = some b) :
    (truncate chunkSize allocS3ChunkId m fileSize size).1 = .OK ∧
      (truncate chunkSize allocS3ChunkId m fileSize size).2.asserted = false ∧
      ∃ info, holdsInfo (truncate chunkSize allocS3ChunkId m fileSize size).2.s3ChunkInfoMap info ∧
        info.zero = true ∧ info.chunkid = b + ((size - fileSize) / chunkSize + 1) := by
  set N := (size - fileSize) / chunkSize + 1 with hN
  have hmod : N % 2 ^ 32 = N := Nat.mod_eq_of_lt hnum
  have hrun : truncate chunkSize allocS3ChunkId m fileSize size =
      (.OK, walkRounds chunkSize (truncateRound b N) (size - fileSize) (fileSize / chunkSize)
        (fileSize % chunkSize) (size - fileSize) ⟨m, fileSize, b, true⟩) := by
    simp only [truncate, if_neg (show ¬size ≤ fileSize by omega), ← hN, hmod, halloc]
  -- the loop's invariant from the start to `size`
  have hinv : TruncateInv chunkSize fileSize b N (fileSize + (size - fileSize))
      (walkRounds chunkSize (truncateRound b N) (size - fileSize) (fileSize / chunkSize)
        (fileSize % chunkSize) (size - fileSize) ⟨m, fileSize, b, true⟩) := by
    refine walkRounds_rule hcs (TruncateInv chunkSize fileSize b N) ?_ le_rfl ?_
    · intro y s hfy hy hstart h
      exact h.round hcs (Nat.succ_pos _) hfy hstart
        (roundLen_pos (Nat.mod_lt y hcs) (by omega)) (roundLen_add_le (Nat.mod_lt y hcs)) _ _
    · refine ⟨by simp [roundsTo], rfl, by simp [roundsTo], fun h => by simp [roundsTo] at h⟩
  rw [show fileSize + (size - fileSize) = size by omega] at hinv
  have hrounds := roundsTo_size_of_cross hcs hlt hcross
  rw [hrun]
  refine ⟨rfl, ?_, hinv.past (by omega)⟩
  have h := hinv.asserted
  rw [hrounds] at h
  simpa [show ¬(size - fileSize) / chunkSize + 2 ≤ N by omega] using h

/-- A hole of six bytes from offset 3 with chunks of 4 bytes: two ids allocated, three chunks
touched. -/
theorem truncate_uses_unallocated_chunkId_three_chunks :
    0 < 4 ∧ 3 < 9 ∧ 4 < 3 % 4 + (9 - 3) % 4 ∧ (9 - 3) / 4 + 1 < 2 ^ 32 ∧
      (fun _ => some 100 : Nat → Option Nat) ((9 - 3) / 4 + 1) = some 100 ∧
      ((truncate 4 (fun _ => some 100) ∅ 3 9).1 = .OK ∧
        (truncate 4 (fun _ => some 100) ∅ 3 9).2.asserted = false ∧
        ∃ info, holdsInfo (truncate 4 (fun _ => some 100) ∅ 3 9).2.s3ChunkInfoMap info ∧
          info.zero = true ∧ info.chunkid = 100 + ((9 - 3) / 4 + 1)) :=
  ⟨by decide, by decide, by decide, by decide, rfl,
    truncate_uses_unallocated_chunkId 4 _ ∅ 3 9 100 (by decide) (by decide) (by decide)
      (by decide) rfl⟩

end DingoFs.Client
