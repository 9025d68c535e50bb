import DingoFs.Client.MemCacheRead
import Mathlib

/-!
# Writing a file range into the chunk caches, and reading it back

`FileCacheManager::Write` cuts a write at a file offset into one `WriteChunk` per chunk it
touches, as `ReadFromMemCache` cuts a read; `FileCacheManager::WriteChunk` finds or creates the
chunk's manager and writes into its write cache. The write cache is the first layer a read looks
at, so after a write the file's managers hold the written bytes over the written range and what
they held elsewhere (`write_spec`), and a read of that range is served from memory with exactly
the written bytes (`read_after_write`).

The chunk-level write is `writeChunk` of `WriteCache`, whose position and length are
`uint32_t`: chunks are taken smaller than `2 ^ 32` bytes.
-/

namespace DingoFs.Client

open DingoFs.Lib

namespace FileCacheManager

/-- `FileCacheManager::WriteChunk`: `writeLen` bytes of `dataBuf` at `chunkPos` of chunk
`index`, written into the write cache of the chunk's manager, found or created. -/
def writeChunk (index chunkPos writeLen : Nat) (dataBuf : List UInt8)
    (chunkCacheMap : ChunkCacheMap) : ChunkCacheMap :=
  let (chunkCacheManager, chunkCacheMap) := findOrCreateChunkCacheManager index chunkCacheMap
  chunkCacheMap.insert index { chunkCacheManager with
    dataWCacheMap :=
      DingoFs.Client.writeChunk chunkPos writeLen dataBuf chunkCacheManager.dataWCacheMap }

/-- The loop of `FileCacheManager::Write`, at chunk `index` and position `chunkPos`, with
`length` bytes of `dataBuf` left from `writeOffset`; `WriteChunk` reads its `writeLen` bytes
from `dataBuf + write_offset`. It returns the final `write_offset` and the managers. -/
def writeLoop (chunkSize : Nat) (dataBuf : List UInt8) :
    (fuel index chunkPos length writeOffset : Nat) → ChunkCacheMap → Nat × ChunkCacheMap
  | 0, _, _, _, writeOffset, chunkCacheMap => (writeOffset, chunkCacheMap)
  | fuel + 1, index, chunkPos, length, writeOffset, chunkCacheMap =>
    if length > 0 then
      let writeLen := if chunkPos + length > chunkSize then chunkSize - chunkPos else length
      writeLoop chunkSize dataBuf fuel (index + 1) ((chunkPos + writeLen) % chunkSize)
        (length - writeLen) (writeOffset + writeLen)
        (writeChunk index chunkPos writeLen ((dataBuf.drop writeOffset).take writeLen)
          chunkCacheMap)
    else (writeOffset, chunkCacheMap)

/-- `FileCacheManager::Write` of `length` bytes of `dataBuf` at file offset `offset`: the
number of bytes written and the managers after it. Each round writes at least one byte, so
`length` rounds are enough. -/
def write (chunkSize offset length : Nat) (dataBuf : List UInt8) (chunkCacheMap : ChunkCacheMap) :
    Nat × ChunkCacheMap :=
  writeLoop chunkSize dataBuf length (offset / chunkSize) (offset % chunkSize) length 0
    chunkCacheMap

end FileCacheManager

/-! ## A write into one chunk -/

section WriteChunk

variable {chunkSize : Nat} {chunkCacheMap : ChunkCacheMap} {data : List UInt8}

/-- `WriteChunk` into a manager's write cache keeps the manager's invariant, and the manager
then holds the written bytes over the write and what it held elsewhere. -/
theorem ChunkCacheManager.writeChunk_contents {m : ChunkCacheManager} (h : m.Inv) {a : Nat}
    (hpos : 0 < data.length) (ha : a < 2 ^ 32) (hl : data.length < 2 ^ 32) :
    ChunkCacheManager.Inv
        { m with dataWCacheMap := writeChunk a data.length data m.dataWCacheMap } ∧
      ∀ q, ChunkCacheManager.contents
          { m with dataWCacheMap := writeChunk a data.length data m.dataWCacheMap } q =
        putRange m.contents a data q := by
  obtain ⟨hinv, hcontents⟩ := writeChunk_spec h.write hpos ha hl
  refine ⟨⟨hinv, h.flushing, h.read⟩, fun q => ?_⟩
  -- the write cache is the first layer, so its written bytes hide the others
  show ((cacheContents (writeChunk a data.length data m.dataWCacheMap) q).or _).or _ = _
  rw [hcontents q]
  unfold putRange
  by_cases hq : a ≤ q ∧ q < a + data.length
  · rw [if_pos hq, if_pos hq, List.getElem?_eq_getElem (by omega)]
    rfl
  · rw [if_neg hq, if_neg hq]
    rfl

/-- `FileCacheManager::WriteChunk` of a nonempty write inside chunk `index` keeps the
managers' invariant, and the file then holds the written bytes over the write and what it held
elsewhere. -/
theorem FileCacheManager.writeChunk_fileContents (hinv : ChunkCacheMapInv chunkCacheMap)
    (hcs : chunkSize < 2 ^ 32) (index : Nat) {chunkPos : Nat} (hin : chunkPos + data.length ≤ chunkSize)
    (hpos : 0 < data.length) :
    ChunkCacheMapInv (FileCacheManager.writeChunk index chunkPos data.length data chunkCacheMap) ∧
      fileContents chunkSize
          (FileCacheManager.writeChunk index chunkPos data.length data chunkCacheMap) =
        putRange (fileContents chunkSize chunkCacheMap) (index * chunkSize + chunkPos) data := by
  obtain ⟨hgrow, hfound⟩ := findOrCreateChunkCacheManager_spec index chunkCacheMap
  set found := findOrCreateChunkCacheManager index chunkCacheMap
  have hinv₁ : ChunkCacheMapInv found.2 := hgrow.inv hinv
  obtain ⟨hm', hcontents⟩ := ChunkCacheManager.writeChunk_contents (hinv₁.managers hfound)
    (a := chunkPos) hpos (by omega) (by omega)
  set m' : ChunkCacheManager :=
    { found.1 with
      dataWCacheMap := DingoFs.Client.writeChunk chunkPos data.length data found.1.dataWCacheMap }
  have hwrite : FileCacheManager.writeChunk index chunkPos data.length data chunkCacheMap =
      found.2.insert index m' := rfl
  rw [hwrite]
  constructor
  · -- the manager written is the one held under `index`; the others are untouched
    constructor
    · intro i m hm
      by_cases hi : i = index
      · subst hi
        rw [AList.lookup_insert, Option.some.injEq] at hm
        have hidx : found.1.index = i := hinv₁.index_eq hfound
        rw [← hm]
        exact hidx
      · rw [AList.lookup_insert_ne hi] at hm
        exact hinv₁.index_eq hm
    · intro i m hm
      by_cases hi : i = index
      · subst hi
        rw [AList.lookup_insert, Option.some.injEq] at hm
        rw [← hm]
        exact hm'
      · rw [AList.lookup_insert_ne hi] at hm
        exact hinv₁.managers hm
  · funext o
    have hcs0 : 0 < chunkSize := by omega
    by_cases hi : o / chunkSize = index
    · -- inside the chunk: the manager's contents, written
      obtain ⟨p, hp, rfl⟩ : ∃ p, p < chunkSize ∧ o = index * chunkSize + p :=
        ⟨o % chunkSize, Nat.mod_lt _ hcs0, by rw [← hi, Nat.div_add_mod']⟩
      rw [fileContents_of_lookup (AList.lookup_insert _) hp, hcontents p, ← hgrow.fileContents_eq,
        putRange, putRange, fileContents_of_lookup hfound hp]
      by_cases hq : chunkPos ≤ p ∧ p < chunkPos + data.length
      · rw [if_pos hq, if_pos (by omega)]
        congr 1
        omega
      · rw [if_neg hq, if_neg (by omega)]
    · -- another chunk: its manager is untouched and the write does not reach it
      have hout : ¬ (index * chunkSize + chunkPos ≤ o ∧
          o < index * chunkSize + chunkPos + data.length) := by
        intro ho
        apply hi
        apply Nat.div_eq_of_lt_le
        · omega
        · rw [Nat.add_mul, Nat.one_mul]
          omega
      rw [putRange, if_neg hout, ← hgrow.fileContents_eq, fileContents, fileContents,
        AList.lookup_insert_ne hi]

end WriteChunk

/-! ## The write loop -/

section Write

variable {chunkSize : Nat} {dataBuf : List UInt8}

theorem FileCacheManager.writeLoop_of_length_zero (fuel index chunkPos writeOffset : Nat)
    (chunkCacheMap : ChunkCacheMap) :
    FileCacheManager.writeLoop chunkSize dataBuf fuel index chunkPos 0 writeOffset chunkCacheMap =
      (writeOffset, chunkCacheMap) := by
  cases fuel with
  | zero => rfl
  | succ fuel => rw [FileCacheManager.writeLoop, if_neg (Nat.lt_irrefl 0)]

/-- The loop from chunk `index` at `chunkPos < chunkSize`, with fuel for every byte and a buffer
that holds them: it reports every byte as written, keeps the managers' invariant, and the file
then holds the written bytes over the range and what it held elsewhere. The induction is on the
fuel; two writes that meet at a chunk boundary are one (`putRange_append`). -/
theorem FileCacheManager.writeLoop_spec (hcs0 : 0 < chunkSize) (hcs : chunkSize < 2 ^ 32)
    (dataBuf : List UInt8) :
    ∀ (fuel index chunkPos length writeOffset : Nat) (chunkCacheMap : ChunkCacheMap),
      ChunkCacheMapInv chunkCacheMap → chunkPos < chunkSize → length ≤ fuel →
      writeOffset + length ≤ dataBuf.length →
      (FileCacheManager.writeLoop chunkSize dataBuf fuel index chunkPos length writeOffset
          chunkCacheMap).1 = writeOffset + length ∧
        ChunkCacheMapInv (FileCacheManager.writeLoop chunkSize dataBuf fuel index chunkPos length
          writeOffset chunkCacheMap).2 ∧
        fileContents chunkSize (FileCacheManager.writeLoop chunkSize dataBuf fuel index chunkPos
            length writeOffset chunkCacheMap).2 =
          putRange (fileContents chunkSize chunkCacheMap) (index * chunkSize + chunkPos)
            ((dataBuf.drop writeOffset).take length) := by
  intro fuel
  induction fuel with
  | zero =>
    intro index chunkPos length writeOffset chunkCacheMap hinv _ hfuel _
    obtain rfl : length = 0 := by omega
    rw [FileCacheManager.writeLoop_of_length_zero, List.take_zero, putRange_nil]
    exact ⟨rfl, hinv, rfl⟩
  | succ fuel ih =>
    intro index chunkPos length writeOffset chunkCacheMap hinv hpos hfuel hbuf
    by_cases hlen : length = 0
    · subst hlen
      rw [FileCacheManager.writeLoop_of_length_zero, List.take_zero, putRange_nil]
      exact ⟨rfl, hinv, rfl⟩
    rw [FileCacheManager.writeLoop, if_pos (by omega)]
    dsimp only
    -- the round writes what is left of the chunk, at least one byte, all in the buffer
    set writeLen := if chunkPos + length > chunkSize then chunkSize - chunkPos else length
      with hwl
    have hwl_pos : 0 < writeLen := by rw [hwl]; split_ifs <;> omega
    have hwl_le : writeLen ≤ length := by rw [hwl]; split_ifs <;> omega
    have hwl_in : chunkPos + writeLen ≤ chunkSize := by rw [hwl]; split_ifs <;> omega
    set data := (dataBuf.drop writeOffset).take writeLen with hdata
    have hdata_len : data.length = writeLen := by
      rw [hdata, List.length_take, List.length_drop]
      omega
    obtain ⟨hinv₁, hcontents₁⟩ := FileCacheManager.writeChunk_fileContents
      hinv hcs index (hdata_len ▸ hwl_in) (hdata_len ▸ hwl_pos)
    rw [hdata_len] at hinv₁ hcontents₁
    obtain ⟨hoff, hinv₂, hcontents₂⟩ := ih (index + 1) ((chunkPos + writeLen) % chunkSize)
      (length - writeLen) (writeOffset + writeLen) _ hinv₁ (Nat.mod_lt _ hcs0) (by omega)
      (by omega)
    refine ⟨by rw [hoff]; omega, hinv₂, ?_⟩
    rw [hcontents₂, hcontents₁]
    by_cases hlast : length - writeLen = 0
    · -- the last round: nothing is left to write
      rw [hlast, List.take_zero, putRange_nil, hdata, show writeLen = length by omega]
    · -- another round follows: this one ends its chunk and the next starts at position 0
      have hend : chunkPos + writeLen = chunkSize := by
        rw [hwl] at hlast ⊢
        split_ifs at hlast ⊢ <;> omega
      have hnext : (index + 1) * chunkSize + (chunkPos + writeLen) % chunkSize =
          index * chunkSize + chunkPos + data.length := by
        rw [hend, Nat.mod_self, Nat.add_zero, Nat.succ_mul, hdata_len, Nat.add_assoc, hend]
      have hrest : (dataBuf.drop (writeOffset + writeLen)).take (length - writeLen) =
          ((dataBuf.drop writeOffset).drop writeLen).take (length - writeLen) := by
        rw [List.drop_drop]
      rw [hnext, putRange_append, hrest, hdata, ← List.take_add,
        show writeLen + (length - writeLen) = length by omega]

/-- `FileCacheManager::Write` of `length` bytes of a buffer that holds them, over chunks of
`1 ≤ chunkSize < 2 ^ 32` bytes and managers that keep their invariant: it reports all `length`
bytes as written, keeps the invariant, and the file's managers then hold the written bytes over
the written range and what they held elsewhere. -/
theorem write_spec (hcs0 : 0 < chunkSize) (hcs : chunkSize < 2 ^ 32)
    {chunkCacheMap : ChunkCacheMap} (hinv : ChunkCacheMapInv chunkCacheMap) (offset length : Nat)
    (hbuf : length ≤ dataBuf.length) :
    (FileCacheManager.write chunkSize offset length dataBuf chunkCacheMap).1 = length ∧
      ChunkCacheMapInv (FileCacheManager.write chunkSize offset length dataBuf chunkCacheMap).2 ∧
      fileContents chunkSize (FileCacheManager.write chunkSize offset length dataBuf chunkCacheMap).2 =
        putRange (fileContents chunkSize chunkCacheMap) offset (dataBuf.take length) := by
  have h := FileCacheManager.writeLoop_spec hcs0 hcs dataBuf length (offset / chunkSize)
    (offset % chunkSize) length 0 chunkCacheMap hinv (Nat.mod_lt _ hcs0) le_rfl (by omega)
  rwa [Nat.div_add_mod', Nat.zero_add, List.drop_zero] at h

/-- A write of three bytes at offset 2 over chunks of 4 bytes: into the first chunk's write
cache, next to the bytes it holds, and into a new manager of the second chunk. -/
theorem write_spec_sample :
    0 < 4 ∧ (4 : Nat) < 2 ^ 32 ∧ ChunkCacheMapInv sampleChunkCacheMap ∧
      3 ≤ ([1, 2, 3] : List UInt8).length ∧
      fileContents 4 (FileCacheManager.write 4 2 3 [1, 2, 3] sampleChunkCacheMap).2 =
        putRange (fileContents 4 sampleChunkCacheMap) 2 (([1, 2, 3] : List UInt8).take 3) :=
  ⟨by decide, by decide, sampleChunkCacheMap_inv, by decide,
    (write_spec (by decide) (by decide) sampleChunkCacheMap_inv 2 3 (by decide)).2.2⟩

end Write

/-! ## Reading back what was written -/

/-- A read of a range just written, through `FileCacheManager::Write` of a buffer that holds
the bytes and then `ReadFromMemCache` of the same range, over chunks of
`1 ≤ chunkSize < 2 ^ 32` bytes and managers that keep their invariant: the read leaves no
cache-miss request, so `FileCacheManager::Read` does not go to S3, and the buffer receives
exactly the written bytes. -/
theorem read_after_write {chunkSize : Nat} (hcs0 : 0 < chunkSize) (hcs : chunkSize < 2 ^ 32)
    {chunkCacheMap : ChunkCacheMap} (hinv : ChunkCacheMapInv chunkCacheMap) (offset length : Nat)
    {dataBuf : List UInt8} (hbuf : length ≤ dataBuf.length) :
    (readFromMemCache chunkSize offset length
        (FileCacheManager.write chunkSize offset length dataBuf chunkCacheMap).2).memCacheMissRequest
        = [] ∧
      ∀ i, extentAt (readFromMemCache chunkSize offset length
          (FileCacheManager.write chunkSize offset length dataBuf chunkCacheMap).2).copies i =
        if i < length then dataBuf[i]? else none := by
  have hwrite := FileCacheManager.writeLoop_spec hcs0 hcs dataBuf length (offset / chunkSize)
    (offset % chunkSize) length 0 chunkCacheMap hinv (Nat.mod_lt _ hcs0) le_rfl (by omega)
  rw [Nat.div_add_mod', Nat.zero_add, List.drop_zero] at hwrite
  obtain ⟨-, hinv', hcontents⟩ := hwrite
  have hread := readFromMemCacheLoop_spec hcs0 length (offset / chunkSize) (offset % chunkSize)
    length 0 _ hinv' (Nat.mod_lt _ hcs0) le_rfl
  dsimp only at hread
  rw [Nat.div_add_mod', hcontents] at hread
  obtain ⟨hspec, -, -⟩ := hread
  -- over the range the file now holds the written bytes, which are all there
  have hwritten : ∀ o, offset ≤ o → o < offset + length →
      putRange (fileContents chunkSize chunkCacheMap) offset (dataBuf.take length) o =
        dataBuf[o - offset]? := by
    intro o ho₁ ho₂
    rw [putRange, if_pos ⟨ho₁, by rw [List.length_take]; omega⟩, List.getElem?_take,
      if_pos (by omega)]
  constructor
  · apply hspec.requests_eq_nil_iff.mpr
    intro o ho₁ ho₂
    rw [hwritten o ho₁ ho₂, List.getElem?_eq_getElem (by omega)]
    exact Option.some_ne_none _
  · intro i
    by_cases hi : i < length
    · rw [if_pos hi]
      have hcopy := hspec.copied (offset + i) (by omega) (by omega)
      rwa [hwritten _ (by omega) (by omega), Nat.zero_add, Nat.add_sub_cancel_left] at hcopy
    · -- nothing is copied past the read's length
      rw [if_neg hi]
      by_contra hsome
      have := hspec.copied_within i hsome
      omega

/-- Reading back the three bytes written at offset 2 over chunks of 4 bytes. -/
theorem read_after_write_sample :
    0 < 4 ∧ (4 : Nat) < 2 ^ 32 ∧ ChunkCacheMapInv sampleChunkCacheMap ∧
      3 ≤ ([1, 2, 3] : List UInt8).length ∧
      (readFromMemCache 4 2 3
        (FileCacheManager.write 4 2 3 [1, 2, 3] sampleChunkCacheMap).2).memCacheMissRequest = [] :=
  ⟨by decide, by decide, sampleChunkCacheMap_inv, by decide,
    (read_after_write (by decide) (by decide) sampleChunkCacheMap_inv 2 3 (by decide)).1⟩

-- The first chunk gives the two bytes written into its write cache, the second the third byte.
example : (readFromMemCache 4 2 3
    (FileCacheManager.write 4 2 3 [1, 2, 3] sampleChunkCacheMap).2).copies =
      [(0, [1, 2]), (2, [3])] := by
  decide

end DingoFs.Client
