import DingoFs.Lib.PageWalk
import DingoFs.Lib.Word

/-!
# The pages of a `DataCache`

A `DataCache` holds the bytes `[chunkPos_, chunkPos_ + len_)` of a chunk in pages of
`pageSize` bytes, kept in `dataMap_` by block and by page index in the block, with blocks of
`blockSize` bytes. `actualChunkPos_` is the start of the first page and `actualLen_` the bytes
of all its pages. The constructor, `CopyBufToDataCache`, `AddDataBefore` and `Truncate` walk
their range block by block and page by page (`walkPages`); `MergeDataCacheToDataCache` walks
the pages of a neighbour from the cache's end, copying into a page the cache has or moving
the neighbour's page over; `CopyDataCacheToBuf` reads pages and asserts that each is there.

Positions and lengths are `Nat`: a cache lies in a chunk, whose offsets are `uint64_t`. Only
`Truncate` stores a length in an `int`, the round length `n` of its block loop
(`truncateLoop`); that loop is modelled with the `uint64_t` arithmetic `n` enters, and is the
walk of the other routines while blocks are shorter than `2^31` bytes.

This module keeps which pages exist and the lengths; the bytes themselves are the subject of
`DingoFs.Client.WriteCache`. An assertion of the source that fails makes a routine return
`none`.
-/

namespace DingoFs.Client.Pages

open DingoFs.Lib

/-- `DataCache::dataMap_`, a map from blocks to `PageDataMap`s: the blocks that have a
`PageDataMap` and the `(blockIndex, pageIndex)` of the pages they hold. A page sits in its
block's map. -/
@[ext] structure PageMap where
  blocks : Finset Nat
  pages : Finset (Nat × Nat)
  mem_blocks : ∀ k ∈ pages, k.1 ∈ blocks

namespace PageMap

/-- An empty `dataMap_`. -/
def empty : PageMap := ⟨∅, ∅, by simp⟩

/-- `dataMap_[blockIndex]`, which adds an empty `PageDataMap` for a block it lacks. -/
def touch (dm : PageMap) (blockIndex : Nat) : PageMap :=
  ⟨insert blockIndex dm.blocks, dm.pages,
    fun k hk => Finset.mem_insert_of_mem (dm.mem_blocks k hk)⟩

/-- `pdMap.count(pageIndex)` on the map of block `blockIndex`. -/
def count (dm : PageMap) (blockIndex pageIndex : Nat) : Bool :=
  decide ((blockIndex, pageIndex) ∈ dm.pages)

/-- `pdMap.emplace(pageIndex, …)` on `dataMap_[blockIndex]`. -/
def emplace (dm : PageMap) (blockIndex pageIndex : Nat) : PageMap :=
  ⟨insert blockIndex dm.blocks, insert (blockIndex, pageIndex) dm.pages, by
    intro k hk
    rcases Finset.mem_insert.mp hk with rfl | hk
    · exact Finset.mem_insert_self _ _
    · exact Finset.mem_insert_of_mem (dm.mem_blocks k hk)⟩

/-- `pdMap.erase(pageIndex)` on the map of block `blockIndex`. -/
def erase (dm : PageMap) (blockIndex pageIndex : Nat) : PageMap :=
  ⟨dm.blocks, dm.pages.erase (blockIndex, pageIndex),
    fun k hk => dm.mem_blocks k (Finset.mem_of_mem_erase hk)⟩

/-- `if (pdMap.empty()) dataMap_.erase(blockIndex)`. -/
def eraseIfEmpty (dm : PageMap) (blockIndex : Nat) : PageMap :=
  if h : ∀ k ∈ dm.pages, k.1 ≠ blockIndex then
    ⟨dm.blocks.erase blockIndex, dm.pages,
      fun k hk => Finset.mem_erase.mpr ⟨h k hk, dm.mem_blocks k hk⟩⟩
  else dm

@[simp] theorem touch_pages (dm : PageMap) (b : Nat) : (dm.touch b).pages = dm.pages := rfl

@[simp] theorem erase_pages (dm : PageMap) (b p : Nat) :
    (dm.erase b p).pages = dm.pages.erase (b, p) := rfl

@[simp] theorem eraseIfEmpty_pages (dm : PageMap) (b : Nat) :
    (dm.eraseIfEmpty b).pages = dm.pages := by
  unfold eraseIfEmpty
  split <;> rfl

theorem count_eq (dm : PageMap) (b p : Nat) : dm.count b p = decide ((b, p) ∈ dm.pages) := rfl

/-- `dataMap_[blockIndex]` on a block that has its map changes nothing. -/
theorem touch_of_mem {dm : PageMap} {b : Nat} (hb : b ∈ dm.blocks) : dm.touch b = dm := by
  ext k
  · simp [touch, Finset.insert_eq_of_mem hb]
  · rfl

/-- The map holds the pages `P`, and a `PageDataMap` for exactly their blocks. -/
structure Holds (dm : PageMap) (P : Finset (Nat × Nat)) : Prop where
  pages_eq : dm.pages = P
  blocks_eq : dm.blocks = P.image Prod.fst

/-- Inside block `b` of a walk: the map holds the pages `P`, and a `PageDataMap` for their
blocks and for `b`, which may still be empty. -/
structure HoldsIn (dm : PageMap) (b : Nat) (P : Finset (Nat × Nat)) : Prop where
  pages_eq : dm.pages = P
  blocks_eq : dm.blocks = insert b (P.image Prod.fst)

theorem Holds.touch {dm : PageMap} {P : Finset (Nat × Nat)} (h : dm.Holds P) (b : Nat) :
    (dm.touch b).HoldsIn b P :=
  ⟨h.pages_eq, by rw [← h.blocks_eq]; rfl⟩

/-- Block `b` gets a page of its own. -/
theorem HoldsIn.emplace {dm : PageMap} {b : Nat} {P : Finset (Nat × Nat)} (h : dm.HoldsIn b P)
    {k : Nat × Nat} (hk : k.1 = b) : (dm.emplace k.1 k.2).HoldsIn b (insert k P) := by
  obtain ⟨b', p⟩ := k
  dsimp only at hk
  subst hk
  refine ⟨?_, ?_⟩
  · show insert (b', p) dm.pages = _
    rw [h.pages_eq]
  · show insert b' dm.blocks = _
    rw [h.blocks_eq, Finset.image_insert]

/-- Block `b` loses one of its pages. -/
theorem HoldsIn.erase {dm : PageMap} {b : Nat} {P : Finset (Nat × Nat)} (h : dm.HoldsIn b P)
    {k : Nat × Nat} (hk : k.1 = b) : (dm.erase k.1 k.2).HoldsIn b (P.erase k) := by
  refine ⟨by simp [h.pages_eq], ?_⟩
  rw [show (dm.erase k.1 k.2).blocks = dm.blocks from rfl, h.blocks_eq]
  ext x
  simp only [Finset.mem_insert, Finset.mem_image, Finset.mem_erase]
  constructor
  · rintro (rfl | ⟨y, hy, rfl⟩)
    · exact .inl rfl
    · by_cases hyk : y = k
      · subst hyk
        exact .inl hk
      · exact .inr ⟨y, ⟨hyk, hy⟩, rfl⟩
  · rintro (rfl | ⟨y, ⟨-, hy⟩, rfl⟩)
    · exact .inl rfl
    · exact .inr ⟨y, hy, rfl⟩

/-- A block that has a page keeps its map at the end of its round. -/
theorem HoldsIn.holds {dm : PageMap} {b : Nat} {P : Finset (Nat × Nat)} (h : dm.HoldsIn b P)
    (hb : b ∈ P.image Prod.fst) : dm.Holds P :=
  ⟨h.pages_eq, by rw [h.blocks_eq, Finset.insert_eq_of_mem hb]⟩

/-- `if (pdMap.empty()) dataMap_.erase(blockIndex)` leaves a map for exactly the blocks with a
page. -/
theorem HoldsIn.eraseIfEmpty {dm : PageMap} {b : Nat} {P : Finset (Nat × Nat)}
    (h : dm.HoldsIn b P) : (dm.eraseIfEmpty b).Holds P := by
  unfold PageMap.eraseIfEmpty
  split
  · rename_i hempty
    refine ⟨h.pages_eq, ?_⟩
    show dm.blocks.erase b = _
    have hb : b ∉ P.image Prod.fst := by
      rw [← h.pages_eq, Finset.mem_image]
      rintro ⟨k, hk, hkb⟩
      exact hempty k hk hkb
    rw [h.blocks_eq, Finset.erase_insert hb]
  · rename_i hne
    apply h.holds
    obtain ⟨k, hk, hkb⟩ : ∃ k ∈ dm.pages, k.1 = b := by
      by_contra hno
      exact hne fun k hk hkb => hno ⟨k, hk, hkb⟩
    rw [← h.pages_eq]
    exact Finset.mem_image.mpr ⟨k, hk, hkb⟩

end PageMap

/-- `DataCache`: the range `[chunkPos_, chunkPos_ + len_)` it holds, `actualChunkPos_` and
`actualLen_`, and `dataMap_`. -/
structure DataCache where
  chunkPos : Nat
  len : Nat
  actualChunkPos : Nat
  actualLen : Nat
  dataMap : PageMap

/-- The length from `actualChunkPos` to the end of `[chunkPos, chunkPos + len)` rounded up to
whole pages: the `actualLen_` that `AddDataBefore` sets and `Truncate` checks. -/
def pageAlignedLen (pageSize chunkPos len actualChunkPos : Nat) : Nat :=
  if (chunkPos + len - actualChunkPos) % pageSize = 0 then chunkPos + len - actualChunkPos
  else ((chunkPos + len - actualChunkPos) / pageSize + 1) * pageSize

/-! ## The routines -/

/-- A page round of the constructor: a new page, the zero tail left when the round ends inside
the page, and `assert(pdMap.count(pageIndex) == 0)`, `none` when it fails. -/
def createPage (pageSize : Nat) (s : Option (PageMap × Nat))
    (blockIndex pageIndex pagePos m : Nat) : Option (PageMap × Nat) :=
  match s with
  | none => none
  | some (dm, tailZeroLen) =>
    let tailZeroLen := if pagePos + m < pageSize then pageSize - pagePos - m else tailZeroLen
    if dm.count blockIndex pageIndex then none
    else some (dm.emplace blockIndex pageIndex, tailZeroLen)

/-- The constructor `DataCache(chunkPos, len, data)`; `none` when one of its assertions fails. -/
def DataCache.create (blockSize pageSize chunkPos len : Nat) : Option DataCache :=
  let actualChunkPos := chunkPos - chunkPos % pageSize
  let headZeroLen := chunkPos - actualChunkPos
  match walkPages blockSize pageSize (fun s blockIndex => s.map fun p => (p.1.touch blockIndex, p.2))
      (createPage pageSize) (fun s _ => s) chunkPos len (some (PageMap.empty, 0)) with
  | none => none
  | some (dm, tailZeroLen) =>
    let actualLen := headZeroLen + len + tailZeroLen
    -- `assert((actualLen_ % pageSize) == 0)` and `assert((actualChunkPos_ % pageSize) == 0)`
    if actualLen % pageSize = 0 ∧ actualChunkPos % pageSize = 0 then
      some ⟨chunkPos, len, actualChunkPos, actualLen, dm⟩
    else none

/-- A page round of `AddDataBefore`: the page, made when the block lacks it. -/
def addPage (dm : PageMap) (blockIndex pageIndex _pagePos _m : Nat) : PageMap :=
  if dm.count blockIndex pageIndex then dm else dm.emplace blockIndex pageIndex

/-- A page round of `CopyBufToDataCache`: the page, made when the block lacks it and then
counted in `addLen`. -/
def copyBufPage (pageSize : Nat) (s : PageMap × Nat) (blockIndex pageIndex _pagePos _m : Nat) :
    PageMap × Nat :=
  if s.1.count blockIndex pageIndex then s else (s.1.emplace blockIndex pageIndex, s.2 + pageSize)

namespace DataCache

/-- `DataCache::CopyBufToDataCache` of `len` bytes at `dataCachePos` of the cache. -/
def copyBufToDataCache (blockSize pageSize : Nat) (dc : DataCache) (dataCachePos len : Nat) :
    DataCache :=
  let r := walkPages blockSize pageSize (fun s blockIndex => (s.1.touch blockIndex, s.2))
    (copyBufPage pageSize) (fun s _ => s) (dc.chunkPos + dataCachePos) len (dc.dataMap, 0)
  { dc with len := if dataCachePos + len > dc.len then dataCachePos + len else dc.len,
            dataMap := r.1, actualLen := dc.actualLen + r.2 }

/-- `DataCache::AddDataBefore` of `len` bytes before the cache. -/
def addDataBefore (blockSize pageSize : Nat) (dc : DataCache) (len : Nat) : DataCache :=
  let newChunkPos := dc.chunkPos - len
  let dataMap := walkPages blockSize pageSize PageMap.touch addPage (fun s _ => s)
    newChunkPos len dc.dataMap
  let actualChunkPos := newChunkPos - newChunkPos % pageSize
  { chunkPos := newChunkPos, len := dc.len + len, actualChunkPos, dataMap,
    actualLen := pageAlignedLen pageSize newChunkPos (dc.len + len) actualChunkPos }

end DataCache

/-- A page round of `Truncate`: a page cut from its start is freed and `actualLen_` drops by a
page; the page cut inside keeps its head (its tail is cleared). -/
def truncatePage (pageSize : Nat) (s : PageMap × Nat) (blockIndex pageIndex pagePos _m : Nat) :
    PageMap × Nat :=
  if pagePos = 0 ∧ s.1.count blockIndex pageIndex = true then
    (s.1.erase blockIndex pageIndex, s.2 - pageSize)
  else s

/-- A block round of `Truncate` over the `n` bytes from `blockPos` of block `blockIndex`:
`dataMap_[blockIndex]`, its page rounds, and the block's map dropped when it is left empty. -/
def truncateBlock (pageSize : Nat) (s : PageMap × Nat) (blockIndex blockPos n : Nat) :
    PageMap × Nat :=
  let s := walkRounds pageSize
    (fun s pageIndex pagePos m => truncatePage pageSize s blockIndex pageIndex pagePos m)
    n (blockPos / pageSize) (blockPos % pageSize) n (s.1.touch blockIndex, s.2)
  (s.1.eraseIfEmpty blockIndex, s.2)

/-- The block loop of `Truncate`, for at most `fuel` rounds. The round length goes into
`int n`, so the page rounds walk `n` bytes when `n > 0` and none otherwise (`m` is at most
`blockLen`, so it fits in its `int`), and `truncateLen -= n` and `blockPos = (blockPos + n) %
blockSize` take `n` back as a `uint64_t`. The loop's course depends on `blockPos < blockSize`
and `truncateLen < 2^64` alone, so a run that has not ended after `blockSize * 2^64` rounds
has repeated a state and never ends: `none`. -/
def truncateLoop (blockSize pageSize : Nat) :
    (fuel blockIndex blockPos truncateLen : Nat) → PageMap × Nat → Option (PageMap × Nat)
  | 0, _, _, truncateLen, s => if truncateLen > 0 then none else some s
  | fuel + 1, blockIndex, blockPos, truncateLen, s =>
    if truncateLen > 0 then
      let n := toInt32
        (if add64 blockPos truncateLen > blockSize then blockSize - blockPos else truncateLen)
      truncateLoop blockSize pageSize fuel (blockIndex + 1)
        (add64 blockPos (ofInt64 n) % blockSize) (sub64 truncateLen (ofInt64 n))
        (truncateBlock pageSize s blockIndex blockPos n.toNat)
    else some s

/-- `DataCache::Truncate` to `size` bytes; `none` when `assert(size <= len_)` or the check of
`actualLen_` against the recomputed length fails, or when the block loop never ends. -/
def DataCache.truncate (blockSize pageSize : Nat) (dc : DataCache) (size : Nat) :
    Option DataCache :=
  if size ≤ dc.len then
    let truncatePos := dc.chunkPos + size
    match truncateLoop blockSize pageSize (blockSize * 2 ^ 64) (truncatePos / blockSize)
        (truncatePos % blockSize) (dc.len - size) (dc.dataMap, dc.actualLen) with
    | some r =>
      if pageAlignedLen pageSize dc.chunkPos size dc.actualChunkPos = r.2 then
        some { dc with len := size, dataMap := r.1, actualLen := r.2 }
      else none
    | none => none
  else none

/-- A page round of `CopyDataCacheToBuf`: `assert(pdMap.count(pageIndex))`. -/
def copyOutPage (s : Option PageMap) (blockIndex pageIndex _pagePos _m : Nat) : Option PageMap :=
  match s with
  | none => none
  | some dm => if dm.count blockIndex pageIndex then some dm else none

/-- `DataCache::CopyDataCacheToBuf` of `len` bytes from `offset`: the cache after (reading
indexes `dataMap_[blockIndex]`), `none` when an assertion fails. -/
def DataCache.copyDataCacheToBuf (blockSize pageSize : Nat) (dc : DataCache) (offset len : Nat) :
    Option DataCache :=
  if offset + len ≤ dc.len then
    (walkPages blockSize pageSize (fun s blockIndex => s.map (·.touch blockIndex)) copyOutPage
      (fun s _ => s) (dc.chunkPos + offset) len (some dc.dataMap)).map
      fun dm => { dc with dataMap := dm }
  else none

/-- The state of the loop of `MergeDataCacheToDataCache`: both caches' page maps, the page the
loop is at, the bytes left and `actualLen_`. -/
structure MergeState where
  dataMap : PageMap
  mergeMap : PageMap
  blockIndex : Nat
  pageIndex : Nat
  pagePos : Nat
  len : Nat
  actualLen : Nat

namespace MergeState

/-- The top of a round: past the last page of a block, on to the next block
(`pdMap = &dataMap_[blockIndex]`). -/
def nextBlock (maxPageInBlock : Nat) (st : MergeState) : MergeState :=
  if st.pageIndex = maxPageInBlock then
    { st with blockIndex := st.blockIndex + 1, pageIndex := 0,
              dataMap := st.dataMap.touch (st.blockIndex + 1) }
  else st

/-- The end of a round of `n` bytes: `len` down by `n`, to zero at most, and on to the next
page's start. -/
def advance (st : MergeState) (n : Nat) : MergeState :=
  { st with len := if st.len ≥ n then st.len - n else 0, pageIndex := st.pageIndex + 1,
            pagePos := 0 }

/-- A round at a page the merged cache has: copied into the cache's own page, or the page
moved over (`emplace` here, `ErasePageData` there) and `actualLen_` up by a page. -/
def mergePage (pageSize : Nat) (st : MergeState) : MergeState :=
  if st.dataMap.count st.blockIndex st.pageIndex then
    st.advance (roundLen pageSize st.pagePos st.len)
  else
    ({ st with dataMap := st.dataMap.emplace st.blockIndex st.pageIndex,
               mergeMap := (st.mergeMap.erase st.blockIndex st.pageIndex).eraseIfEmpty st.blockIndex,
               actualLen := st.actualLen + pageSize } : MergeState).advance pageSize

end MergeState

/-- The loop of `MergeDataCacheToDataCache`, for at most `fuel` rounds (each takes a byte);
`none` when `assert(mergePage)` fails. -/
def mergeLoop (blockSize pageSize : Nat) : (fuel : Nat) → MergeState → Option MergeState
  | 0, st => some st
  | fuel + 1, st =>
    if st.len > 0 then
      let st := st.nextBlock (blockSize / pageSize)
      -- `GetPageData` indexes `dataMap_[blockIndex]` of the merged cache
      let st := { st with mergeMap := st.mergeMap.touch st.blockIndex }
      if st.mergeMap.count st.blockIndex st.pageIndex then
        mergeLoop blockSize pageSize fuel (st.mergePage pageSize)
      else none
    else some st

/-- `DataCache::MergeDataCacheToDataCache` of the `len` bytes of `mergeDataCache` from
`dataOffset`: both caches after, `none` when an assertion fails. -/
def DataCache.mergeDataCacheToDataCache (blockSize pageSize : Nat) (dc mergeDataCache : DataCache)
    (dataOffset len : Nat) : Option (DataCache × DataCache) :=
  let chunkPos := mergeDataCache.chunkPos + dataOffset
  -- `assert(chunkPos == (chunkPos_ + len_))` and
  -- `assert((dataOffset + len) == mergeDataCache->GetLen())`
  if chunkPos = dc.chunkPos + dc.len ∧ dataOffset + len = mergeDataCache.len then
    let blockIndex := chunkPos / blockSize
    let blockPos := chunkPos % blockSize
    (mergeLoop blockSize pageSize len
      { dataMap := dc.dataMap.touch blockIndex, mergeMap := mergeDataCache.dataMap, blockIndex,
        pageIndex := blockPos / pageSize, pagePos := blockPos % pageSize, len,
        actualLen := dc.actualLen }).map fun st =>
      ({ dc with len := dc.len + len, dataMap := st.dataMap, actualLen := st.actualLen },
       { mergeDataCache with dataMap := st.mergeMap })
  else none

/-- `DataCache::Write` of `len` bytes at `chunkPos` into the cache, with `mergeDataCacheVer`
the caches the write swallowed: the cache after, `none` when an assertion of a call fails. -/
def DataCache.write (blockSize pageSize : Nat) (dc : DataCache) (chunkPos len : Nat)
    (mergeDataCacheVer : List DataCache) : Option DataCache :=
  -- the swallowed cache that reaches past the write, whose tail is merged
  let tail := mergeDataCacheVer.find? fun mc => decide (chunkPos + len < mc.chunkPos + mc.len)
  if chunkPos ≤ dc.chunkPos then
    let front := dc.copyBufToDataCache blockSize pageSize 0 (chunkPos + len - dc.chunkPos)
    if chunkPos + len ≤ dc.chunkPos + dc.len then
      some (front.addDataBefore blockSize pageSize (dc.chunkPos - chunkPos))
    else
      match tail with
      | some mc =>
        (front.mergeDataCacheToDataCache blockSize pageSize mc (chunkPos + len - mc.chunkPos)
          (mc.chunkPos + mc.len - chunkPos - len)).map
          fun r => r.1.addDataBefore blockSize pageSize (dc.chunkPos - chunkPos)
      | none => some (front.addDataBefore blockSize pageSize (dc.chunkPos - chunkPos))
  else
    let back := dc.copyBufToDataCache blockSize pageSize (chunkPos - dc.chunkPos) len
    if chunkPos + len ≤ dc.chunkPos + dc.len then some back
    else
      match tail with
      | some mc =>
        (back.mergeDataCacheToDataCache blockSize pageSize mc (chunkPos + len - mc.chunkPos)
          (mc.chunkPos + mc.len - chunkPos - len)).map (·.1)
      | none => some back

end DingoFs.Client.Pages
