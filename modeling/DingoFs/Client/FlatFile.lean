import DingoFs.Common.S3Object
import DingoFs.Lib.SortedRanges
import DingoFs.Metaserver.Messages

/-!
# The inode-objects listing: `FlatFile`

The client's `inode_objects/<inode_id>` page lists where each byte of a file lives. It feeds
every chunk info of the inode's `s3chunkinfomap`, chunk by chunk in list order, to a
`FlatFile`: `FlatFileChunk::InsertChunkInfo` keeps per chunk index the slices of the file that
each info still shows, cutting the slices a newer info overlaps; `S3ChunkHoler` cuts each info
at block boundaries into `BlockObj`s. `FormatStringWithHeader` then prints, for every slice, a
row per object it touches: the range, the offset in the object, the object's `BlockKey`, the
object's length and the zero flag.

The slices are the newest-info view of the file: every byte some info covers lies in exactly
one row of positive length, of the newest info covering it, at the offset in the object where
the writers put it. The object is not named as the writers name it. `S3ChunkHoler::Init`
numbers an info's blocks from the info's first block (`block_id - start_block_id`), while
`PrepareFlushTasks` and `WriteFullChunk` number them from the chunk's first block; the two
agree only for an info that starts in its chunk's first block
(`defaultMethod_names_block_from_info_start`).
-/

namespace DingoFs.Client

open DingoFs.Common DingoFs.Lib DingoFs.Metaserver

/-- `FlatFileSlice`: `len` bytes of the file from `file_offset`, shown by chunk `chunk_id`. -/
structure FlatFileSlice where
  fileOffset : Nat
  len : Nat
  chunkId : Nat
deriving DecidableEq, Repr

namespace FlatFileChunk

/-- The slices `file_offset_slice_` holds that overlap `newSlice`: the one before
`lower_bound(new_slice.file_offset)` if it reaches past the new slice's start, then those from
there on that start before its end. The map holds each slice under its own offset, so the
`CHECK` that the one before starts earlier holds. -/
def overlapSlices (fileOffsetSlice : List FlatFileSlice) (newSlice : FlatFileSlice) :
    List FlatFileSlice :=
  let before := fileOffsetSlice.takeWhile (·.fileOffset < newSlice.fileOffset)
  let startIter := fileOffsetSlice.dropWhile (·.fileOffset < newSlice.fileOffset)
  let overlapPrev := match before.getLast? with
    | some prev => if prev.fileOffset + prev.len > newSlice.fileOffset then [prev] else []
    | none => []
  overlapPrev ++ startIter.takeWhile (·.fileOffset < newSlice.fileOffset + newSlice.len)

/-- "insert left slice": what the first overlapped slice shows before the new one goes back
into `m`, if it starts before the new slice. -/
def insertLeftSlice (newSlice : FlatFileSlice) (overlap m : List FlatFileSlice) :
    Option (List FlatFileSlice) :=
  match overlap.head? with
  | some first =>
    if first.fileOffset < newSlice.fileOffset then
      checkedInsert (·.fileOffset)
        ⟨first.fileOffset, newSlice.fileOffset - first.fileOffset, first.chunkId⟩ m
    else pure m
  | none => pure m

/-- "insert right slice": what the last overlapped slice shows after the new one goes back
into `m`, if it ends after the new slice. -/
def insertRightSlice (newSlice : FlatFileSlice) (overlap m : List FlatFileSlice) :
    Option (List FlatFileSlice) :=
  match overlap.getLast? with
  | some last =>
    if last.fileOffset + last.len > newSlice.fileOffset + newSlice.len then
      checkedInsert (·.fileOffset)
        ⟨newSlice.fileOffset + newSlice.len,
          last.fileOffset + last.len - (newSlice.fileOffset + newSlice.len), last.chunkId⟩ m
    else pure m
  | none => pure m

/-- `FlatFileChunk::InsertChunkInfo` on `file_offset_slice_`, a `std::map` from file offsets
to slices, kept as its slices in offset order: the overlapped slices are erased, what the
first of them shows before the new slice and what the last shows after it are put back, and
the new slice goes in. Each insert `CHECK`s that its offset is free. -/
def insertChunkInfo (fileOffsetSlice : List FlatFileSlice) (newSlice : FlatFileSlice) :
    Option (List FlatFileSlice) := do
  let overlap := overlapSlices fileOffsetSlice newSlice
  let erased := overlap.foldl (fun m s => m.filter (·.fileOffset ≠ s.fileOffset)) fileOffsetSlice
  let withLeft ← insertLeftSlice newSlice overlap erased
  let withRight ← insertRightSlice newSlice overlap withLeft
  checkedInsert (·.fileOffset) newSlice withRight

end FlatFileChunk

/-- `BlockObj`: an object of a chunk info, holding `obj_len` bytes of the file from
`file_offset`, with the info's zero flag, its compaction as the version, and its index. -/
structure BlockObj where
  fileOffset : Nat
  objLen : Nat
  zero : Bool
  version : Nat
  chunkId : Nat
  blockIndex : Nat
deriving DecidableEq, Repr

/-- `BlockObjSlice`: `len` bytes from `file_offset` of the object `obj`. -/
structure BlockObjSlice where
  fileOffset : Nat
  len : Nat
  obj : BlockObj
deriving DecidableEq, Repr

/-- `S3ChunkHoler`: a chunk info, the block size, and `offset_to_block_`, the info's objects
in offset order. -/
structure S3ChunkHoler where
  chunkInfo : S3ChunkInfo
  blockSize : Nat
  offsetToBlock : List BlockObj

namespace S3ChunkHoler

/-- The loop of `S3ChunkHoler::Init` from `offset` in file block `blockId` up to `chunkEnd`:
an object per block, to the block's end or the info's, numbered from `startBlockId`. Each
`CHECK`s that its offset is new to `offset_to_block_`. -/
def initLoop (chunkInfo : S3ChunkInfo) (blockSize startBlockId chunkEnd : Nat) :
    (fuel blockId offset : Nat) → List BlockObj → Option (List BlockObj)
  | 0, _, _, offsetToBlock => some offsetToBlock
  | fuel + 1, blockId, offset, offsetToBlock =>
    if offset < chunkEnd then
      let blockBoundary := (blockId + 1) * blockSize
      let objLen := min blockBoundary chunkEnd - offset
      let blockObj : BlockObj := ⟨offset, objLen, chunkInfo.zero, chunkInfo.compaction,
        chunkInfo.chunkid, blockId - startBlockId⟩
      match checkedInsert (·.fileOffset) blockObj offsetToBlock with
      | none => none
      | some offsetToBlock =>
        initLoop chunkInfo blockSize startBlockId chunkEnd fuel (blockId + 1) (offset + objLen)
          offsetToBlock
    else some offsetToBlock

/-- `S3ChunkHoler::S3ChunkHoler`, which runs `Init`. For a positive block size each round takes
a byte at least, so `len` rounds reach the info's end. -/
def init (chunkInfo : S3ChunkInfo) (blockSize : Nat) : Option S3ChunkHoler :=
  let blockId := chunkInfo.offset / blockSize
  (initLoop chunkInfo blockSize blockId (chunkInfo.len + chunkInfo.offset) chunkInfo.len blockId
    chunkInfo.offset []).map fun offsetToBlock => ⟨chunkInfo, blockSize, offsetToBlock⟩

/-- `S3ChunkHoler::GetBlockObj`: the object before `lower_bound(slice.file_offset)`, whether or
not it reaches into the slice, then those from there on that start before the slice's end. -/
def getBlockObj (h : S3ChunkHoler) (slice : FlatFileSlice) : Option (List BlockObj) :=
  if slice.chunkId = h.chunkInfo.chunkid ∧ h.chunkInfo.offset ≤ slice.fileOffset ∧
      slice.fileOffset + slice.len ≤ h.chunkInfo.offset + h.chunkInfo.len then
    let before := h.offsetToBlock.takeWhile (·.fileOffset < slice.fileOffset)
    let startIter := h.offsetToBlock.dropWhile (·.fileOffset < slice.fileOffset)
    let overlapBlockObjs := before.getLast?.toList ++
      startIter.takeWhile (·.fileOffset < slice.fileOffset + slice.len)
    if overlapBlockObjs = [] then none else some overlapBlockObjs
  else none

/-- The part of `slice` that `blockObj` holds, as `GetBlockObjSlice` cuts it. -/
def objSlice (slice : FlatFileSlice) (blockObj : BlockObj) : BlockObjSlice :=
  let startOffset := max slice.fileOffset blockObj.fileOffset
  let endOffset := min (slice.fileOffset + slice.len) (blockObj.fileOffset + blockObj.objLen)
  ⟨startOffset, endOffset - startOffset, blockObj⟩

/-- `S3ChunkHoler::GetBlockObjSlice`: for each object `GetBlockObj` gives, the part of the slice
it holds. -/
def getBlockObjSlice (h : S3ChunkHoler) (slice : FlatFileSlice) : Option (List BlockObjSlice) :=
  if slice.chunkId = h.chunkInfo.chunkid ∧ h.chunkInfo.offset ≤ slice.fileOffset ∧
      slice.len ≤ h.chunkInfo.len then
    (h.getBlockObj slice).map fun overlapBlockObjs => overlapBlockObjs.map (objSlice slice)
  else none

end S3ChunkHoler

/-- A row of `FormatStringWithHeader`: `file_offset`, `len`, `block_offset`, the object's
`BlockKey` (printed by `StoreKey`), `block_len` and `zero`. -/
structure ObjectRow where
  fileOffset : Nat
  len : Nat
  blockOffset : Nat
  blockName : BlockKey
  blockLen : Nat
  zero : Bool
deriving DecidableEq, Repr

/-- `FlatFile`: the fs and inode, the block size, `chunk_id_to_s3_chunk_holer_` (the holders
in chunk id order) and `chunk_index_flat_file_chunk_` (each chunk index with its slices, in
index order). -/
structure FlatFile where
  fsId : Nat
  ino : Nat
  blockSize : Nat
  chunkIdToS3ChunkHoler : List S3ChunkHoler
  chunkIndexFlatFileChunk : List (Nat × List FlatFileSlice)

namespace FlatFile

/-- `FlatFile::InsertChunkInfo`: the info's holder goes in under its chunk id, which must be
new, and its slice into the chunk of `chunkIndex`, created empty if missing. -/
def insertChunkInfo (ff : FlatFile) (chunkIndex : Nat) (chunkInfo : S3ChunkInfo) :
    Option FlatFile := do
  let holder ← S3ChunkHoler.init chunkInfo ff.blockSize
  let holders ← checkedInsert (·.chunkInfo.chunkid) holder ff.chunkIdToS3ChunkHoler
  let slice : FlatFileSlice := ⟨chunkInfo.offset, chunkInfo.len, chunkInfo.chunkid⟩
  let chunk ← FlatFileChunk.insertChunkInfo
    ((ff.chunkIndexFlatFileChunk.lookup chunkIndex).getD []) slice
  pure { ff with
    chunkIdToS3ChunkHoler := holders
    chunkIndexFlatFileChunk := orderedMapAssign chunkIndex chunk ff.chunkIndexFlatFileChunk }

/-- The row printed for an object slice: the `BlockKey` is
`(fs_id_, ino_, chunk_id, block_index, version)` and the offset in the object is the slice's
start less the object's. -/
def row (ff : FlatFile) (objSlice : BlockObjSlice) : ObjectRow :=
  ⟨objSlice.fileOffset, objSlice.len, objSlice.fileOffset - objSlice.obj.fileOffset,
    ⟨ff.fsId, ff.ino, objSlice.obj.chunkId, objSlice.obj.blockIndex, objSlice.obj.version⟩,
    objSlice.obj.objLen, objSlice.obj.zero⟩

/-- The rows of one slice: its holder, found by chunk id, cuts it at its objects. -/
def sliceRows (ff : FlatFile) (flatFileSlice : FlatFileSlice) : Option (List ObjectRow) := do
  let chunkHolder ← ff.chunkIdToS3ChunkHoler.find? (·.chunkInfo.chunkid = flatFileSlice.chunkId)
  let objSlices ← chunkHolder.getBlockObjSlice flatFileSlice
  pure (objSlices.map ff.row)

/-- `FlatFile::FormatStringWithHeader`, the rows under the header line: chunk by chunk, slice
by slice, the rows of each slice. -/
def formatStringWithHeader (ff : FlatFile) : Option (List ObjectRow) :=
  (ff.chunkIndexFlatFileChunk.mapM fun (flatFileChunk : Nat × List FlatFileSlice) =>
    (flatFileChunk.2.mapM ff.sliceRows).map List.flatten).map List.flatten

end FlatFile

/-- `InodeObjectsService::default_method` for an inode: every chunk info of its
`s3chunkinfomap`, chunk by chunk in list order, goes into a `FlatFile`, whose rows are the
page. -/
def InodeObjectsService.defaultMethod (fsId inodeId blockSize : Nat)
    (s3chunkinfomap : S3ChunkInfoMap) : Option (List ObjectRow) := do
  let flatFile ← s3chunkinfomap.entries.foldlM
    (fun flatFile chunk => chunk.2.foldlM
      (fun flatFile chunkInfo => flatFile.insertChunkInfo chunk.1 chunkInfo) flatFile)
    (⟨fsId, inodeId, blockSize, [], []⟩ : FlatFile)
  flatFile.formatStringWithHeader

/-! ## The objects of a chunk info -/

namespace S3ChunkHoler

/-- The object `Init` makes for file block `k` of `chunkInfo`: from the later of the info's
offset and the block's start to the earlier of their ends, numbered from the info's first
block. -/
def blockObjOf (blockSize : Nat) (chunkInfo : S3ChunkInfo) (k : Nat) : BlockObj :=
  ⟨max chunkInfo.offset (k * blockSize),
    min ((k + 1) * blockSize) (chunkInfo.len + chunkInfo.offset) -
      max chunkInfo.offset (k * blockSize),
    chunkInfo.zero, chunkInfo.compaction, chunkInfo.chunkid, k - chunkInfo.offset / blockSize⟩

variable {blockSize : Nat} {chunkInfo : S3ChunkInfo}

/-- The rounds of `Init` from block `k`, at the later of the info's offset and the block's start
(or past the info's end): with fuel for the blocks left they append the objects of the blocks
from `k` to the one holding the info's last byte. Induction on the fuel; each round's object
starts past every object before it, so its insert appends it. -/
theorem initLoop_eq (hbs : 0 < blockSize)
    (hend : chunkInfo.offset < chunkInfo.len + chunkInfo.offset) :
    ∀ fuel k offset acc, chunkInfo.offset / blockSize ≤ k →
      offset = min (chunkInfo.len + chunkInfo.offset) (max chunkInfo.offset (k * blockSize)) →
      (∀ o ∈ acc, o.fileOffset < max chunkInfo.offset (k * blockSize)) →
      (chunkInfo.len + chunkInfo.offset - 1) / blockSize + 1 ≤ fuel + k →
      initLoop chunkInfo blockSize (chunkInfo.offset / blockSize)
          (chunkInfo.len + chunkInfo.offset) fuel k offset acc =
        some (acc ++ (List.range' k ((chunkInfo.len + chunkInfo.offset - 1) / blockSize + 1 - k)).map
          (blockObjOf blockSize chunkInfo))
  | 0, k, offset, acc, _, _, _, hfuel => by
    rw [Nat.sub_eq_zero_of_le (by omega), List.range'_zero, List.map_nil, List.append_nil]
    rfl
  | fuel + 1, k, offset, acc, hk, hoffset, hacc, hfuel => by
    have hsucc : (k + 1) * blockSize = k * blockSize + blockSize := Nat.succ_mul k blockSize
    have hkbs : chunkInfo.offset < k * blockSize + blockSize := by
      have h₁ := lt_succ_div_mul hbs chunkInfo.offset
      have h₂ : (chunkInfo.offset / blockSize + 1) * blockSize ≤ (k + 1) * blockSize :=
        Nat.mul_le_mul_right blockSize (by omega)
      rw [hsucc] at h₂
      omega
    by_cases hlt : offset < chunkInfo.len + chunkInfo.offset
    · -- block `k` starts before the info's end: its object goes last, and the next round
      -- starts at the next block
      have hM : max chunkInfo.offset (k * blockSize) < chunkInfo.len + chunkInfo.offset := by
        rcases Nat.le_total (chunkInfo.len + chunkInfo.offset) (max chunkInfo.offset (k * blockSize))
          with h | h
        · rw [hoffset, Nat.min_eq_left h] at hlt
          omega
        · omega
      have hmax : offset = max chunkInfo.offset (k * blockSize) := by
        rw [hoffset, Nat.min_eq_right (Nat.le_of_lt hM)]
      have hkle : k ≤ (chunkInfo.len + chunkInfo.offset - 1) / blockSize :=
        (Nat.le_div_iff_mul_le hbs).mpr (by have := le_max_right chunkInfo.offset (k * blockSize); omega)
      have hobj : (⟨offset, min ((k + 1) * blockSize) (chunkInfo.len + chunkInfo.offset) - offset,
          chunkInfo.zero, chunkInfo.compaction, chunkInfo.chunkid,
          k - chunkInfo.offset / blockSize⟩ : BlockObj) = blockObjOf blockSize chunkInfo k := by
        rw [hmax]
        rfl
      have happend : checkedInsert (·.fileOffset) (blockObjOf blockSize chunkInfo k) acc =
          some (acc ++ [blockObjOf blockSize chunkInfo k]) := by
        rw [checkedInsert_of_fresh fun o ho => Nat.ne_of_lt (hacc o ho)]
        have := @orderedSetInsert_append _ (fun y z => decide (y.fileOffset < z.fileOffset))
          (blockObjOf blockSize chunkInfo k) [] (fun y hy => by cases hy) acc
          (fun x hx => ⟨by
              simp only [blockObjOf]
              exact decide_eq_false (Nat.not_lt.mpr (Nat.le_of_lt (hacc x hx))),
            by simpa [blockObjOf] using hacc x hx⟩)
        rw [List.append_nil] at this
        rw [this]
      -- the next round starts at the next block's start, or at the info's end
      have hnext : offset + (min ((k + 1) * blockSize) (chunkInfo.len + chunkInfo.offset) - offset) =
          min (chunkInfo.len + chunkInfo.offset) (max chunkInfo.offset ((k + 1) * blockSize)) := by
        have hle := le_max_right chunkInfo.offset (k * blockSize)
        have hle' := le_max_left chunkInfo.offset (k * blockSize)
        rw [Nat.max_eq_right (by omega : chunkInfo.offset ≤ (k + 1) * blockSize)]
        rw [hsucc] at *
        omega
      have hacc' : ∀ o ∈ acc ++ [blockObjOf blockSize chunkInfo k],
          o.fileOffset < max chunkInfo.offset ((k + 1) * blockSize) := by
        intro o ho
        have hle := le_max_right chunkInfo.offset (k * blockSize)
        have hlt' : max chunkInfo.offset (k * blockSize) < max chunkInfo.offset ((k + 1) * blockSize) := by
          rw [Nat.max_eq_right (by omega : chunkInfo.offset ≤ (k + 1) * blockSize), hsucc]
          omega
        rcases List.mem_append.mp ho with ho | ho
        · exact Nat.lt_trans (hacc o ho) hlt'
        · rw [List.mem_singleton.mp ho]
          exact hlt'
      rw [initLoop, if_pos hlt]
      dsimp only
      rw [hobj, happend]
      dsimp only
      rw [hnext, initLoop_eq hbs hend fuel (k + 1) _ _ (by omega) rfl hacc' (by omega),
        show (chunkInfo.len + chunkInfo.offset - 1) / blockSize + 1 - k =
          ((chunkInfo.len + chunkInfo.offset - 1) / blockSize + 1 - (k + 1)) + 1 by omega,
        List.range'_succ, List.map_cons, List.append_assoc, List.singleton_append]
    · -- past the info's end: no block is left
      have hgt : (chunkInfo.len + chunkInfo.offset - 1) / blockSize < k := by
        rw [Nat.div_lt_iff_lt_mul hbs]
        rcases Nat.le_total (chunkInfo.len + chunkInfo.offset) (max chunkInfo.offset (k * blockSize))
          with h | h
        · have := max_le_iff.mp (le_refl (max chunkInfo.offset (k * blockSize)))
          rcases Nat.le_total chunkInfo.offset (k * blockSize) with h' | h'
          · rw [Nat.max_eq_right h'] at h
            omega
          · rw [Nat.max_eq_left h'] at h
            omega
        · rw [hoffset, Nat.min_eq_right h] at hlt
          omega
      rw [initLoop, if_neg hlt, Nat.sub_eq_zero_of_le (by omega), List.range'_zero, List.map_nil,
        List.append_nil]

/-- Rounds of `Init` for an info over `n` bytes: the blocks it touches are at most `n`. -/
theorem blocks_le_len (hbs : 0 < blockSize) (a : Nat) :
    ∀ n, 0 < n → (n + a - 1) / blockSize + 1 ≤ n + a / blockSize
  | m + 1, _ => by
    have hlt : (m + 1 + a - 1) / blockSize < a / blockSize + (m + 1) := by
      rw [Nat.div_lt_iff_lt_mul hbs, Nat.add_mul, Nat.add_mul, Nat.one_mul]
      have h₁ := lt_succ_div_mul hbs a
      have h₂ := Nat.le_mul_of_pos_right m hbs
      rw [Nat.add_mul, Nat.one_mul] at h₁
      omega
    omega

/-- `S3ChunkHoler`'s objects of a nonempty info: one per block the info touches. -/
theorem init_eq (hbs : 0 < blockSize) (hlen : 0 < chunkInfo.len) :
    init chunkInfo blockSize = some ⟨chunkInfo, blockSize,
      (blocksOf blockSize chunkInfo.offset (chunkInfo.len + chunkInfo.offset)).map
        (blockObjOf blockSize chunkInfo)⟩ := by
  have hfuel := blocks_le_len hbs chunkInfo.offset chunkInfo.len hlen
  rw [init, initLoop_eq hbs (by omega) chunkInfo.len _ chunkInfo.offset [] le_rfl
    (by rw [Nat.max_eq_left (Nat.div_mul_le_self _ _)]; omega) (fun _ h => by cases h)
    (by omega)]
  rfl

/-- The object of a block the info touches starts before it ends, at the end of the block or of
the info. -/
theorem blockObjOf_bounds (hbs : 0 < blockSize) (hlen : 0 < chunkInfo.len) {k : Nat}
    (hk : k ∈ blocksOf blockSize chunkInfo.offset (chunkInfo.len + chunkInfo.offset)) :
    (blockObjOf blockSize chunkInfo k).fileOffset <
        min ((k + 1) * blockSize) (chunkInfo.len + chunkInfo.offset) ∧
      (blockObjOf blockSize chunkInfo k).fileOffset + (blockObjOf blockSize chunkInfo k).objLen =
        min ((k + 1) * blockSize) (chunkInfo.len + chunkInfo.offset) := by
  obtain ⟨hk₁, hk₂⟩ := mem_blocksOf hk
  have hsucc : (k + 1) * blockSize = k * blockSize + blockSize := Nat.succ_mul k blockSize
  -- the block starts before the info ends, and ends after the info starts
  have hstart : k * blockSize < chunkInfo.len + chunkInfo.offset := by
    have := (Nat.le_div_iff_mul_le hbs).mp hk₂
    omega
  have hend : chunkInfo.offset < k * blockSize + blockSize := by
    have h₁ := lt_succ_div_mul hbs chunkInfo.offset
    have h₂ : (chunkInfo.offset / blockSize + 1) * blockSize ≤ (k + 1) * blockSize :=
      Nat.mul_le_mul_right blockSize (by omega)
    omega
  have hlt : max chunkInfo.offset (k * blockSize) <
      min ((k + 1) * blockSize) (chunkInfo.len + chunkInfo.offset) := by
    simp only [Nat.max_def, Nat.min_def]
    split_ifs <;> omega
  exact ⟨hlt, by simp only [blockObjOf]; omega⟩

/-- The objects of an info are apart: each is nonempty and ends where the next begins. -/
theorem apart_blockObjs (hbs : 0 < blockSize) (hlen : 0 < chunkInfo.len) :
    Apart BlockObj.fileOffset BlockObj.objLen
      ((blocksOf blockSize chunkInfo.offset (chunkInfo.len + chunkInfo.offset)).map
        (blockObjOf blockSize chunkInfo)) := by
  constructor
  · intro o ho
    obtain ⟨k, hk, rfl⟩ := List.mem_map.mp ho
    obtain ⟨h₁, h₂⟩ := blockObjOf_bounds hbs hlen hk
    omega
  · rw [List.pairwise_map]
    apply List.Pairwise.imp_of_mem _ List.pairwise_lt_range'
    intro k k' hk hk' hkk'
    -- block `k` ends at or before block `k'` starts
    have hb := (blockObjOf_bounds hbs hlen hk).2
    have hle : (k + 1) * blockSize ≤ k' * blockSize := Nat.mul_le_mul_right blockSize hkk'
    have h₁ := Nat.min_le_left ((k + 1) * blockSize) (chunkInfo.len + chunkInfo.offset)
    have h₂ : k' * blockSize ≤ (blockObjOf blockSize chunkInfo k').fileOffset :=
      le_max_right _ _
    omega

/-- The object of block `p / blockSize` holds byte `p` of the info. -/
theorem meets_blockObjOf (hbs : 0 < blockSize) {p : Nat} (hlo : chunkInfo.offset ≤ p)
    (hhi : p < chunkInfo.len + chunkInfo.offset) :
    Meets BlockObj.fileOffset BlockObj.objLen p (p + 1) (blockObjOf blockSize chunkInfo (p / blockSize)) := by
  have hk : p / blockSize ∈ blocksOf blockSize chunkInfo.offset (chunkInfo.len + chunkInfo.offset) :=
    div_mem_blocksOf hlo hhi
  have hb := blockObjOf_bounds hbs (by omega) hk
  have h₁ := Nat.div_mul_le_self p blockSize
  have h₂ := lt_succ_div_mul hbs p
  refine ⟨?_, ?_⟩
  · simp only [blockObjOf, Nat.max_def]
    split_ifs <;> omega
  · rw [hb.2]
    simp only [Nat.min_def]
    split_ifs <;> omega

/-- The part of a slice an object holds contains `p` when both do. -/
theorem objSlice_meets_iff {slice : FlatFileSlice} {o : BlockObj} {p : Nat} :
    Meets BlockObjSlice.fileOffset BlockObjSlice.len p (p + 1) (objSlice slice o) ↔
      Meets FlatFileSlice.fileOffset FlatFileSlice.len p (p + 1) slice ∧
        Meets BlockObj.fileOffset BlockObj.objLen p (p + 1) o := by
  simp only [Meets, objSlice, Nat.max_def, Nat.min_def]
  split_ifs <;> omega

variable {slice : FlatFileSlice}

/-- `GetBlockObjSlice` of a slice of an info, with that info's objects: of the parts it cuts,
those containing a byte `p` of the slice are the part of `p`'s block, and none contains a byte
outside the slice. -/
theorem getBlockObjSlice_filter (hbs : 0 < blockSize) (hid : slice.chunkId = chunkInfo.chunkid)
    (hlo : chunkInfo.offset ≤ slice.fileOffset)
    (hhi : slice.fileOffset + slice.len ≤ chunkInfo.len + chunkInfo.offset)
    (hslen : 0 < slice.len) :
    ∃ objSlices, (⟨chunkInfo, blockSize,
        (blocksOf blockSize chunkInfo.offset (chunkInfo.len + chunkInfo.offset)).map
          (blockObjOf blockSize chunkInfo)⟩ : S3ChunkHoler).getBlockObjSlice slice = some objSlices ∧
      ∀ p, objSlices.filter (fun o => decide (Meets BlockObjSlice.fileOffset BlockObjSlice.len p (p + 1) o)) =
        if Meets FlatFileSlice.fileOffset FlatFileSlice.len p (p + 1) slice then
          [objSlice slice (blockObjOf blockSize chunkInfo (p / blockSize))]
        else [] := by
  have hapart : Apart BlockObj.fileOffset BlockObj.objLen
      ((blocksOf blockSize chunkInfo.offset (chunkInfo.len + chunkInfo.offset)).map
        (blockObjOf blockSize chunkInfo)) := apart_blockObjs hbs (by omega)
  set objs := (blocksOf blockSize chunkInfo.offset (chunkInfo.len + chunkInfo.offset)).map
    (blockObjOf blockSize chunkInfo) with hobjs
  set overlap := (objs.takeWhile (·.fileOffset < slice.fileOffset)).getLast?.toList ++
    (objs.dropWhile (·.fileOffset < slice.fileOffset)).takeWhile
      (·.fileOffset < slice.fileOffset + slice.len) with hoverlap
  -- of the objects selected, those holding a byte of the slice are the info's
  have hpoint : ∀ p, slice.fileOffset ≤ p → p < slice.fileOffset + slice.len →
      overlap.filter (fun o => decide (Meets BlockObj.fileOffset BlockObj.objLen p (p + 1) o)) =
        [blockObjOf blockSize chunkInfo (p / blockSize)] := by
    intro p hp₁ hp₂
    rw [hoverlap, hapart.filter_point_of_lowerBound hp₁ hp₂,
      hapart.filter_meets_point (List.mem_map_of_mem (div_mem_blocksOf (by omega) (by omega)))
        (meets_blockObjOf hbs (by omega) (by omega))]
  have hne : overlap ≠ [] := by
    intro h
    have := hpoint slice.fileOffset le_rfl (by omega)
    rw [h] at this
    cases this
  refine ⟨overlap.map (objSlice slice), ?_, ?_⟩
  · rw [getBlockObjSlice, if_pos ⟨hid, hlo, by simp only; omega⟩, getBlockObj,
      if_pos ⟨hid, hlo, by simp only; omega⟩]
    simp only
    rw [if_neg hne]
    rfl
  · intro p
    rw [List.filter_map]
    split_ifs with hp
    · rw [show ((fun o => decide (Meets BlockObjSlice.fileOffset BlockObjSlice.len p (p + 1) o)) ∘
          objSlice slice) = fun o => decide (Meets BlockObj.fileOffset BlockObj.objLen p (p + 1) o) from
          funext fun o => by simp [objSlice_meets_iff, hp],
        hpoint p (by have := hp.1; omega) hp.2]
      rfl
    · rw [List.map_eq_nil_iff, List.filter_eq_nil_iff]
      intro o _ ho
      exact hp (objSlice_meets_iff.mp (by simpa using ho)).1

end S3ChunkHoler

end DingoFs.Client
