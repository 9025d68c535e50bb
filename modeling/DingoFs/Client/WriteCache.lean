import DingoFs.Client.S3CacheManager
import DingoFs.Lib.Extents
import DingoFs.Lib.OrderedSet
import Mathlib

/-!
# The write cache of one chunk: `ChunkCacheManager::dataWCacheMap_`

A write of a chunk goes into a `DataCache`, a run of bytes from `chunkPos_`. The map
`dataWCacheMap_` holds the chunk's caches by their first position. `WriteChunk` finds a cache
the write touches (overlapping or adjacent, `FindWriteableDataCache`), swallows every later
cache that starts at or before the write's end, and writes into the cache found
(`DataCache::Write`, six cases: the write starts before or inside the cache, and ends inside
it, inside a swallowed cache whose tail is merged, or past them all). A write that touches
no cache gets a new one. `TruncateCache` drops what lies from a position on, and
`ReadByWriteCache` copies what the caches hold of a range into the buffer and asks for the
rest.

A cache keeps its bytes in pages of blocks; `actualChunkPos_` and `actualLen_` count those
pages. The model keeps the bytes themselves: what a page copy, a page steal in
`MergeDataCacheToDataCache` or a page clear in `Truncate` does to the bytes
`[chunkPos_, chunkPos_ + len_)`.
-/

namespace DingoFs.Client

open DingoFs.Lib

/-- `DataCache`: the bytes written from `chunkPos_`; `len_` is their number. -/
structure DataCache where
  chunkPos : Nat
  data : List UInt8
deriving DecidableEq, Repr

namespace DataCache

/-- `GetLen`. -/
def len (dc : DataCache) : Nat := dc.data.length

/-- The constructor `DataCache(chunkPos, len, data)`. -/
def ofData (chunkPos len : Nat) (data : List UInt8) : DataCache :=
  ⟨chunkPos, data.take len⟩

/-- `DataCache::CopyBufToDataCache`: `len` bytes of `data` copied in at `dataCachePos`; the
cache grows where they pass its end. -/
def copyBufToDataCache (dc : DataCache) (dataCachePos len : Nat) (data : List UInt8) :
    DataCache :=
  { dc with data := writeAt 0 dc.data dataCachePos (data.take len) }

/-- `DataCache::AddDataBefore`: the first `len` bytes of `data` put before the cache. -/
def addDataBefore (dc : DataCache) (len : Nat) (data : List UInt8) : DataCache :=
  ⟨dc.chunkPos - len, data.take len ++ dc.data⟩

/-- `DataCache::MergeDataCacheToDataCache`: the `len` bytes of `mergeDataCache` from
`dataOffset` on, which start where the cache ends, appended to it (page by page, copied into a
page the cache holds or moved over whole). -/
def mergeDataCacheToDataCache (dc mergeDataCache : DataCache) (dataOffset len : Nat) :
    DataCache :=
  { dc with data := dc.data ++ (mergeDataCache.data.drop dataOffset).take len }

/-- `DataCache::Truncate` to `size` bytes. -/
def truncate (dc : DataCache) (size : Nat) : DataCache :=
  { dc with data := dc.data.take size }

/-- `DataCache::CopyDataCacheToBuf`: the `len` bytes from `offset` on. -/
def copyDataCacheToBuf (dc : DataCache) (offset len : Nat) : List UInt8 :=
  (dc.data.drop offset).take len

end DataCache

/-- `dataWCacheMap_`: the caches by key, in key order. -/
abbrev WriteCacheMap := List (Nat × DataCache)

/-- `std::map::emplace`: the entry goes in key order, unless the key is taken. -/
def emplace (key : Nat) (dc : DataCache) (m : WriteCacheMap) : WriteCacheMap :=
  orderedSetInsert (fun a b => decide (a.1 < b.1)) (key, dc) m

/-- `std::map::erase` of a key. -/
def eraseKey (key : Nat) (m : WriteCacheMap) : WriteCacheMap :=
  m.filter fun e => decide (e.1 ≠ key)

/-- `upper_bound(chunkPos)`, stepped back once unless at `begin()`: the caches from the last
one keyed at or below `chunkPos` on. -/
def fromUpperBoundPrev (chunkPos : Nat) (m : WriteCacheMap) : WriteCacheMap :=
  m.drop ((m.takeWhile fun e => decide (e.1 ≤ chunkPos)).length - 1)

/-- The inner loop of `FindWriteableDataCache` (`waitDelVec`): the caches after the one found
that start at or before the write's end. -/
def swallowedDataCaches (writeEnd : Nat) : WriteCacheMap → WriteCacheMap
  | [] => []
  | e :: rest => if writeEnd < e.2.chunkPos then [] else e :: swallowedDataCaches writeEnd rest

/-- The outer loop of `FindWriteableDataCache`: the first cache the write of `len` bytes at
`chunkPos` overlaps or touches, with the caches it swallows. -/
def findTouchingDataCache (chunkPos len : Nat) :
    WriteCacheMap → Option ((Nat × DataCache) × WriteCacheMap)
  | [] => none
  | e :: rest =>
    if chunkPos + len ≥ e.2.chunkPos ∧ chunkPos ≤ e.2.chunkPos + e.2.len then
      some (e, swallowedDataCaches (chunkPos + len) rest)
    else findTouchingDataCache chunkPos len rest

/-- `ChunkCacheManager::FindWriteableDataCache`: the cache to write into with its key, the
caches to merge into it (`mergeDataCacheVer`), and the map without them. -/
def findWriteableDataCache (chunkPos len : Nat) (m : WriteCacheMap) :
    Option (Nat × DataCache) × List DataCache × WriteCacheMap :=
  match findTouchingDataCache chunkPos len (fromUpperBoundPrev chunkPos m) with
  | none => (none, [], m)
  | some (e, waitDel) =>
    (some e, waitDel.map (·.2), waitDel.foldl (fun m d => eraseKey d.1 m) m)

/-- `ChunkCacheManager::UpdateWriteCacheMap`: the cache held under `oldChunkPos` moves to the
key of its `chunkPos`. The map holds caches by pointer, so the entry found is the cache
written. -/
def updateWriteCacheMap (oldChunkPos : Nat) (dc : DataCache) (m : WriteCacheMap) :
    WriteCacheMap :=
  match m.find? fun e => decide (e.1 = oldChunkPos) with
  | some e => emplace e.2.chunkPos e.2 (eraseKey oldChunkPos m)
  | none => emplace dc.chunkPos dc m

/-- `DataCache::Write` of `len` bytes of `data` at `chunkPos` into the cache `dc`, held in the
map under `key`, with the caches `FindWriteableDataCache` swallowed: the map it leaves. The
map holds `dc` by pointer, so it sees the written cache under `key`; a write that starts at
or before the cache then moves it to its new key. -/
def DataCache.write (dc : DataCache) (key chunkPos len : Nat) (data : List UInt8)
    (mergeDataCacheVer : List DataCache) (m : WriteCacheMap) : WriteCacheMap :=
  let oldChunkPos := dc.chunkPos
  -- the swallowed cache that reaches past the write, whose tail is merged
  let tail := mergeDataCacheVer.find? fun mc => decide (chunkPos + len < mc.chunkPos + mc.len)
  if chunkPos ≤ dc.chunkPos then
    let front := dc.copyBufToDataCache 0 (chunkPos + len - dc.chunkPos)
      (data.drop (dc.chunkPos - chunkPos))
    if chunkPos + len ≤ dc.chunkPos + dc.len then
      let dc' := front.addDataBefore (dc.chunkPos - chunkPos) data
      updateWriteCacheMap oldChunkPos dc' (orderedMapAssign key dc' m)
    else
      match tail with
      | some mc =>
        let dc' := (front.mergeDataCacheToDataCache mc (chunkPos + len - mc.chunkPos)
          (mc.chunkPos + mc.len - chunkPos - len)).addDataBefore (dc.chunkPos - chunkPos) data
        updateWriteCacheMap oldChunkPos dc' (orderedMapAssign key dc' m)
      | none =>
        let dc' := front.addDataBefore (dc.chunkPos - chunkPos) data
        updateWriteCacheMap oldChunkPos dc' (orderedMapAssign key dc' m)
  else
    let back := dc.copyBufToDataCache (chunkPos - dc.chunkPos) len data
    if chunkPos + len ≤ dc.chunkPos + dc.len then orderedMapAssign key back m
    else
      match tail with
      | some mc =>
        orderedMapAssign key (back.mergeDataCacheToDataCache mc (chunkPos + len - mc.chunkPos)
          (mc.chunkPos + mc.len - chunkPos - len)) m
      | none => orderedMapAssign key back m

/-- `ChunkCacheManager::WriteNewDataCache`, whose position and length parameters are
`uint32_t`. -/
def writeNewDataCache (chunkPos len : Nat) (data : List UInt8) (m : WriteCacheMap) :
    WriteCacheMap :=
  emplace (chunkPos % 2 ^ 32) (DataCache.ofData (chunkPos % 2 ^ 32) (len % 2 ^ 32) data) m

/-- `FileCacheManager::WriteChunk` of `writeLen` bytes of `dataBuf` at `chunkPos` of the
chunk. -/
def writeChunk (chunkPos writeLen : Nat) (dataBuf : List UInt8) (m : WriteCacheMap) :
    WriteCacheMap :=
  match findWriteableDataCache chunkPos writeLen m with
  | (some (key, dc), mergeDataCacheVer, m') =>
    dc.write key chunkPos writeLen dataBuf mergeDataCacheVer m'
  | (none, _, m') => writeNewDataCache chunkPos writeLen dataBuf m'

/-- The loop of `TruncateWriteCache`, over the caches from the last one back. -/
def truncateWriteCacheLoop (chunkPos : Nat) : WriteCacheMap → WriteCacheMap
  | [] => []
  | (key, dc) :: rest =>
    if dc.chunkPos ≥ chunkPos then truncateWriteCacheLoop chunkPos rest
    else if dc.chunkPos < chunkPos ∧ dc.chunkPos + dc.len > chunkPos then
      (key, dc.truncate (chunkPos - dc.chunkPos)) :: rest
    else (key, dc) :: rest

/-- `ChunkCacheManager::TruncateWriteCache`: the write-cache half of `TruncateCache`. -/
def truncateWriteCache (chunkPos : Nat) (m : WriteCacheMap) : WriteCacheMap :=
  (truncateWriteCacheLoop chunkPos m.reverse).reverse

/-- The state of the loop of `ReadByWriteCache`: the bytes copied into the buffer at their
buffer offsets, the read requests made, and what is left to read. -/
structure WriteCacheRead where
  copies : List (Nat × List UInt8)
  requests : List ReadRequest
  chunkPos : Nat
  readLen : Nat
  dataBufOffset : Nat

/-- The copies and requests of one round put before those of the rounds after it. -/
def WriteCacheRead.prepend (copies : List (Nat × List UInt8)) (requests : List ReadRequest)
    (r : WriteCacheRead) : WriteCacheRead :=
  { r with copies := copies ++ r.copies, requests := requests ++ r.requests }

/-- The loop of `ReadByWriteCache` over the caches, from `chunkPos` with `readLen` bytes left
for the buffer at `dataBufOffset`. -/
def readByWriteCacheLoop (index : Nat) :
    WriteCacheMap → (chunkPos readLen dataBufOffset : Nat) → WriteCacheRead
  | [], chunkPos, readLen, dataBufOffset => ⟨[], [], chunkPos, readLen, dataBufOffset⟩
  | (_, dc) :: rest, chunkPos, readLen, dataBufOffset =>
    if chunkPos + readLen ≤ dc.chunkPos then ⟨[], [], chunkPos, readLen, dataBufOffset⟩
    else if chunkPos + readLen > dc.chunkPos ∧ chunkPos < dc.chunkPos then
      -- the read starts before the cache: the part before it is a request
      let request : ReadRequest := ⟨index, chunkPos, dc.chunkPos - chunkPos, dataBufOffset⟩
      if chunkPos + readLen ≤ dc.chunkPos + dc.len then
        ⟨[(request.len + dataBufOffset,
            dc.copyDataCacheToBuf 0 (chunkPos + readLen - dc.chunkPos))], [request],
          chunkPos, 0, dataBufOffset⟩
      else
        (readByWriteCacheLoop index rest (dc.chunkPos + dc.len)
          (chunkPos + readLen - (dc.chunkPos + dc.len))
          (dc.chunkPos + dc.len - chunkPos + dataBufOffset)).prepend
          [(request.len + dataBufOffset, dc.copyDataCacheToBuf 0 dc.len)] [request]
    else if chunkPos ≥ dc.chunkPos ∧ chunkPos < dc.chunkPos + dc.len then
      -- the read starts inside the cache
      if chunkPos + readLen ≤ dc.chunkPos + dc.len then
        ⟨[(dataBufOffset, dc.copyDataCacheToBuf (chunkPos - dc.chunkPos) readLen)], [],
          chunkPos, 0, dataBufOffset⟩
      else
        (readByWriteCacheLoop index rest (dc.chunkPos + dc.len)
          (chunkPos + readLen - dc.chunkPos - dc.len)
          (dc.chunkPos + dc.len - chunkPos + dataBufOffset)).prepend
          [(dataBufOffset,
            dc.copyDataCacheToBuf (chunkPos - dc.chunkPos) (dc.chunkPos + dc.len - chunkPos))] []
    else readByWriteCacheLoop index rest chunkPos readLen dataBufOffset

/-- `ChunkCacheManager::ReadByWriteCache` of `readLen` bytes at `chunkPos` of chunk `index`
into the buffer at `dataBufOffset`: the bytes copied from the caches, at their buffer offsets,
and the read requests for the rest. -/
def readByWriteCache (index chunkPos readLen dataBufOffset : Nat) (m : WriteCacheMap) :
    List (Nat × List UInt8) × List ReadRequest :=
  if m = [] then ([], [⟨index, chunkPos, readLen, dataBufOffset⟩])
  else
    let r := readByWriteCacheLoop index (fromUpperBoundPrev chunkPos m) chunkPos readLen
      dataBufOffset
    -- what is left after the caches
    (r.copies, r.requests ++
      if r.readLen > 0 then [⟨index, r.chunkPos, r.readLen, r.dataBufOffset⟩] else [])

/-! ## What the write cache holds -/

/-- A cache as an extent: its bytes from its position. -/
def DataCache.extent (dc : DataCache) : Nat × List UInt8 := (dc.chunkPos, dc.data)

/-- The caches of a map as extents, in key order. -/
def extents (m : WriteCacheMap) : List (Nat × List UInt8) := m.map fun e => e.2.extent

/-- What the write cache holds at chunk position `q`. -/
def cacheContents (m : WriteCacheMap) (q : Nat) : Option UInt8 := extentAt (extents m) q

/-- The invariant of `dataWCacheMap_`: each cache is held under its `chunkPos`, and the caches
are nonempty, in key order, with a free byte between any two. -/
structure WriteCacheInv (m : WriteCacheMap) : Prop where
  key_eq : ∀ e ∈ m, e.1 = e.2.chunkPos
  apart : ExtentsApart (extents m)

@[simp]
theorem extents_append (m₁ m₂ : WriteCacheMap) : extents (m₁ ++ m₂) = extents m₁ ++ extents m₂ :=
  List.map_append

@[simp]
theorem extents_cons (e : Nat × DataCache) (m : WriteCacheMap) :
    extents (e :: m) = e.2.extent :: extents m := rfl

namespace WriteCacheInv

variable {m : WriteCacheMap}

theorem len_pos (h : WriteCacheInv m) {e : Nat × DataCache} (he : e ∈ m) : 0 < e.2.len :=
  h.apart.nonempty _ (List.mem_map_of_mem he)

/-- The caches in order, each ending before the next starts with a free byte between. -/
theorem pairwise (h : WriteCacheInv m) :
    m.Pairwise fun e f => e.2.chunkPos + e.2.len < f.2.chunkPos :=
  List.pairwise_map.mp h.apart.apart

/-- The keys are strictly increasing. -/
theorem pairwise_key (h : WriteCacheInv m) : m.Pairwise fun e f => e.1 < f.1 :=
  List.Pairwise.imp_of_mem (fun he hf hef => by
    rw [h.key_eq _ he, h.key_eq _ hf]
    omega) h.pairwise

theorem sublist (h : WriteCacheInv m) {m' : WriteCacheMap} (hs : m'.Sublist m) :
    WriteCacheInv m' :=
  ⟨fun e he => h.key_eq e (hs.subset he), h.apart.sublist (hs.map _)⟩

end WriteCacheInv

/-- The invariant from the caches' keys, lengths and order. -/
theorem WriteCacheInv.of_pairwise {m : WriteCacheMap} (hkey : ∀ e ∈ m, e.1 = e.2.chunkPos)
    (hlen : ∀ e ∈ m, 0 < e.2.len)
    (hp : m.Pairwise fun e f => e.2.chunkPos + e.2.len < f.2.chunkPos) : WriteCacheInv m :=
  ⟨hkey, ⟨fun x hx => by
    obtain ⟨e, he, rfl⟩ := List.mem_map.mp hx
    exact hlen e he, List.pairwise_map.mpr hp⟩⟩

theorem writeCacheInv_nil : WriteCacheInv [] :=
  .of_pairwise (fun _ h => absurd h List.not_mem_nil) (fun _ h => absurd h List.not_mem_nil)
    List.Pairwise.nil

/-- The invariant of `dataRCacheMap_`: each cache is held under its `chunkPos`, and the caches
are nonempty and in key order without overlap. Two may touch: `AddReadDataCache` drops the
caches a new one overlaps and merges nothing. -/
structure ReadCacheInv (m : WriteCacheMap) : Prop where
  key_eq : ∀ e ∈ m, e.1 = e.2.chunkPos
  ordered : ExtentsOrdered (extents m)

theorem WriteCacheInv.readCacheInv {m : WriteCacheMap} (h : WriteCacheInv m) : ReadCacheInv m :=
  ⟨h.key_eq, h.apart.ordered⟩

theorem ReadCacheInv.sublist {m m' : WriteCacheMap} (h : ReadCacheInv m) (hs : m'.Sublist m) :
    ReadCacheInv m' :=
  ⟨fun e he => h.key_eq e (hs.subset he), h.ordered.sublist (hs.map _)⟩

theorem readCacheInv_nil : ReadCacheInv [] := writeCacheInv_nil.readCacheInv

/-! ## How a write meets the caches -/

section Find

variable {m : WriteCacheMap} {a len : Nat}

/-- `upper_bound(a)` stepped back drops a prefix of the map, and when it drops one, the first
cache it keeps is keyed at or below `a`. -/
theorem fromUpperBoundPrev_split (m : WriteCacheMap) (a : Nat) :
    ∃ pre, m = pre ++ fromUpperBoundPrev a m ∧
      (pre = [] ∨ ∃ x rest, fromUpperBoundPrev a m = x :: rest ∧ x.1 ≤ a) := by
  have hm : m.takeWhile (fun e => decide (e.1 ≤ a)) ++ m.dropWhile (fun e => decide (e.1 ≤ a)) =
      m := List.takeWhile_append_dropWhile
  unfold fromUpperBoundPrev
  rcases List.eq_nil_or_concat (m.takeWhile fun e => decide (e.1 ≤ a)) with ht | ⟨pre, x, ht⟩
  · exact ⟨[], by rw [ht]; rfl, .inl rfl⟩
  rw [List.concat_eq_append] at ht
  -- the last cache keyed at or below `a` is where the search starts
  have hmem : x ∈ m.takeWhile fun e => decide (e.1 ≤ a) := by
    rw [ht]
    exact List.mem_append_right _ (List.mem_singleton_self x)
  have hx := List.mem_takeWhile_imp hmem
  simp only [decide_eq_true_eq] at hx
  rw [ht] at hm ⊢
  rw [List.length_append, List.length_singleton, Nat.add_sub_cancel]
  have hdrop : m.drop pre.length = x :: m.dropWhile fun e => decide (e.1 ≤ a) := by
    conv_lhs => rw [← hm]
    rw [List.append_assoc, List.drop_left, List.singleton_append]
  refine ⟨pre, ?_, .inr ⟨x, _, hdrop, hx⟩⟩
  rw [hdrop, ← List.singleton_append, ← List.append_assoc]
  exact hm.symm

/-- The caches `FindWriteableDataCache` steps over before it starts looking end before the
write's position. -/
theorem exists_append_fromUpperBoundPrev (h : WriteCacheInv m) (a : Nat) :
    ∃ pre, m = pre ++ fromUpperBoundPrev a m ∧ ∀ e ∈ pre, e.2.chunkPos + e.2.len < a := by
  obtain ⟨pre, hsplit, hpre | ⟨x, rest, hx, hxa⟩⟩ := fromUpperBoundPrev_split m a
  · exact ⟨pre, hsplit, fun e he => absurd (hpre ▸ he) List.not_mem_nil⟩
  refine ⟨pre, hsplit, fun e he => ?_⟩
  -- `e` ends before `x` starts, and `x` starts at or below `a`
  have hpair := h.pairwise
  rw [hsplit, hx, List.pairwise_append] at hpair
  have hlt := hpair.2.2 e he x List.mem_cons_self
  rw [← h.key_eq x (by rw [hsplit, hx]; simp)] at hlt
  omega

/-- The caches `ReadByWriteCache` steps over end at or before the read's position. -/
theorem ReadCacheInv.exists_append_fromUpperBoundPrev (h : ReadCacheInv m) (a : Nat) :
    ∃ pre, m = pre ++ fromUpperBoundPrev a m ∧ ∀ e ∈ pre, e.2.chunkPos + e.2.len ≤ a := by
  obtain ⟨pre, hsplit, hpre | ⟨x, rest, hx, hxa⟩⟩ := fromUpperBoundPrev_split m a
  · exact ⟨pre, hsplit, fun e he => absurd (hpre ▸ he) List.not_mem_nil⟩
  refine ⟨pre, hsplit, fun e he => ?_⟩
  have hpair := List.pairwise_map.mp h.ordered.ordered
  rw [hsplit, hx, List.pairwise_append] at hpair
  have hle := hpair.2.2 e he x List.mem_cons_self
  dsimp only [DataCache.extent] at hle
  rw [← h.key_eq x (by rw [hsplit, hx]; simp)] at hle
  unfold DataCache.len
  omega

/-- Caches that end before the write are passed over. -/
theorem findTouchingDataCache_append {l : WriteCacheMap} :
    ∀ {pre : WriteCacheMap}, (∀ e ∈ pre, e.2.chunkPos + e.2.len < a) →
      findTouchingDataCache a len (pre ++ l) = findTouchingDataCache a len l
  | [], _ => rfl
  | e :: pre, h => by
    have he := h e List.mem_cons_self
    rw [List.cons_append, findTouchingDataCache, if_neg (by omega),
      findTouchingDataCache_append fun f hf => h f (List.mem_cons_of_mem e hf)]

theorem findTouchingDataCache_eq_none :
    ∀ {l : WriteCacheMap}, findTouchingDataCache a len l = none →
      ∀ e ∈ l, ¬(a + len ≥ e.2.chunkPos ∧ a ≤ e.2.chunkPos + e.2.len)
  | [], _, _, he => absurd he List.not_mem_nil
  | e :: l, h, f, hf => by
    unfold findTouchingDataCache at h
    split_ifs at h with htouch
    rcases List.mem_cons.mp hf with rfl | hf
    · exact htouch
    · exact findTouchingDataCache_eq_none h f hf

theorem findTouchingDataCache_eq_some {e : Nat × DataCache} {sw : WriteCacheMap} :
    ∀ {l : WriteCacheMap}, findTouchingDataCache a len l = some (e, sw) →
      ∃ pre rest, l = pre ++ e :: rest ∧
        (∀ f ∈ pre, ¬(a + len ≥ f.2.chunkPos ∧ a ≤ f.2.chunkPos + f.2.len)) ∧
        (a + len ≥ e.2.chunkPos ∧ a ≤ e.2.chunkPos + e.2.len) ∧
        sw = swallowedDataCaches (a + len) rest
  | [], h => by cases h
  | f :: l, h => by
    unfold findTouchingDataCache at h
    split_ifs at h with htouch
    · obtain ⟨rfl, rfl⟩ := Prod.mk.inj (Option.some.inj h)
      exact ⟨[], l, rfl, fun _ hg => absurd hg List.not_mem_nil, htouch, rfl⟩
    · obtain ⟨pre, rest, rfl, hpre, he, hsw⟩ := findTouchingDataCache_eq_some h
      refine ⟨f :: pre, rest, rfl, fun g hg => ?_, he, hsw⟩
      rcases List.mem_cons.mp hg with rfl | hg
      · exact htouch
      · exact hpre g hg

/-- The caches swallowed are those up to the first that starts past the write's end. -/
theorem swallowedDataCaches_append (writeEnd : Nat) :
    ∀ rest : WriteCacheMap, ∃ R, rest = swallowedDataCaches writeEnd rest ++ R ∧
      (∀ e ∈ swallowedDataCaches writeEnd rest, e.2.chunkPos ≤ writeEnd) ∧
      ∀ e ∈ R.head?, writeEnd < e.2.chunkPos
  | [] => ⟨[], rfl, fun _ he => absurd he List.not_mem_nil, fun _ he => by cases he⟩
  | e :: rest => by
    unfold swallowedDataCaches
    split_ifs with hafter
    · exact ⟨e :: rest, rfl, fun _ hf => absurd hf List.not_mem_nil,
        fun f hf => by cases Option.some.inj hf; exact hafter⟩
    · obtain ⟨R, hR, hsw, hhead⟩ := swallowedDataCaches_append writeEnd rest
      refine ⟨R, by rw [List.cons_append, ← hR], fun f hf => ?_, hhead⟩
      rcases List.mem_cons.mp hf with rfl | hf
      · omega
      · exact hsw f hf

/-- Erasing the keys of the swallowed caches, one after another. -/
theorem foldl_eraseKey (ds : WriteCacheMap) :
    ∀ m : WriteCacheMap, ds.foldl (fun m d => eraseKey d.1 m) m =
      m.filter fun e => decide (e.1 ∉ ds.map Prod.fst) := by
  induction ds with
  | nil => intro m; simp
  | cons d ds ih =>
    intro m
    rw [List.foldl_cons, ih, eraseKey, List.filter_filter]
    congr 1
    funext e
    simp only [List.map_cons, List.mem_cons, not_or, Bool.decide_and, ne_eq, Bool.and_comm]

/-- How a write of `len` bytes at `a` meets the map: the caches `L` before it, the cache `dc`
it writes into, the caches `S` it swallows, and the caches `R` after it. -/
structure WriteSplit (a len : Nat) (m L S R : WriteCacheMap) (dc : DataCache) : Prop where
  eq : m = L ++ (dc.chunkPos, dc) :: (S ++ R)
  before : ∀ e ∈ L, e.2.chunkPos + e.2.len < a
  touch_left : a ≤ dc.chunkPos + dc.len
  touch_right : dc.chunkPos ≤ a + len
  swallowed : ∀ e ∈ S, e.2.chunkPos ≤ a + len
  after : ∀ e ∈ R, a + len < e.2.chunkPos

/-- Erasing the swallowed caches leaves the others, their keys being distinct. -/
theorem foldl_eraseKey_split (h : WriteCacheInv m) {L S R : WriteCacheMap}
    {e : Nat × DataCache} (hm : m = L ++ e :: (S ++ R)) :
    S.foldl (fun m d => eraseKey d.1 m) m = L ++ e :: R := by
  have hkey := h.pairwise_key
  rw [hm, List.pairwise_append, List.pairwise_cons, List.pairwise_append] at hkey
  obtain ⟨-, ⟨he, -, -, hSR⟩, hL⟩ := hkey
  have hnot : ∀ x : Nat × DataCache, (∀ y ∈ S, x.1 ≠ y.1) → decide (x.1 ∉ S.map Prod.fst) = true := by
    intro x hx
    simp only [decide_eq_true_eq, List.mem_map, not_exists, not_and]
    exact fun y hy hxy => hx y hy hxy.symm
  rw [foldl_eraseKey, hm, List.filter_append, List.filter_cons, List.filter_append,
    List.filter_eq_self.mpr fun x hx => hnot x fun y hy => Nat.ne_of_lt
      (hL x hx y (List.mem_cons_of_mem _ (List.mem_append_left _ hy))),
    if_pos (hnot e fun y hy => Nat.ne_of_lt (he y (List.mem_append_left _ hy))),
    List.filter_eq_nil_iff.mpr fun y hy => by simpa using ⟨y.2, hy⟩,
    List.filter_eq_self.mpr fun x hx => hnot x fun y hy => Nat.ne_of_gt (hSR y hy x hx),
    List.nil_append]

/-- `FindWriteableDataCache` on a map that keeps the invariant: either the write touches no
cache, or it splits the map as `WriteSplit` says and the swallowed caches leave it. -/
theorem findWriteableDataCache_cases (h : WriteCacheInv m) :
    (findWriteableDataCache a len m = (none, [], m) ∧
        ∀ e ∈ m, e.2.chunkPos + e.2.len < a ∨ a + len < e.2.chunkPos) ∨
      ∃ L S R dc, WriteSplit a len m L S R dc ∧
        findWriteableDataCache a len m =
          (some (dc.chunkPos, dc), S.map (·.2), L ++ (dc.chunkPos, dc) :: R) := by
  obtain ⟨pre, hpre, hpre_lt⟩ := exists_append_fromUpperBoundPrev h a
  -- the search from the upper bound finds what a search of the whole map finds
  have hfind : findTouchingDataCache a len m =
      findTouchingDataCache a len (fromUpperBoundPrev a m) := by
    conv_lhs => rw [hpre]
    exact findTouchingDataCache_append hpre_lt
  unfold findWriteableDataCache
  cases hft : findTouchingDataCache a len (fromUpperBoundPrev a m) with
  | none =>
    refine .inl ⟨rfl, fun e he => ?_⟩
    have := findTouchingDataCache_eq_none (hfind.trans hft) e he
    omega
  | some p =>
    obtain ⟨e, sw⟩ := p
    obtain ⟨L, rest, hm, hL, htouch, rfl⟩ := findTouchingDataCache_eq_some (hfind.trans hft)
    obtain ⟨R, hrest, hsw, hhead⟩ := swallowedDataCaches_append (a + len) rest
    have hekey : e = (e.2.chunkPos, e.2) := Prod.ext (h.key_eq e (by rw [hm]; simp)) rfl
    rw [hrest] at hm
    have hpair := h.pairwise
    rw [hm, List.pairwise_append, List.pairwise_cons, List.pairwise_append] at hpair
    obtain ⟨-, ⟨-, -, hR, -⟩, hLe⟩ := hpair
    refine .inr ⟨L, swallowedDataCaches (a + len) rest, R, e.2, ⟨by rw [← hekey]; exact hm,
      fun f hf => ?_, htouch.2, htouch.1, hsw, fun f hf => ?_⟩, by
        dsimp only
        rw [foldl_eraseKey_split h hm, ← hekey]⟩
    · -- a cache before the one found starts below it, so it ends before the write
      have := hL f hf
      have := hLe f hf e List.mem_cons_self
      omega
    · -- a cache after the swallowed ones starts past the first of them
      obtain ⟨r, R', rfl⟩ := List.exists_cons_of_ne_nil (List.ne_nil_of_mem hf)
      have hr := hhead r rfl
      rcases List.mem_cons.mp hf with rfl | hf
      · exact hr
      · have := (List.pairwise_cons.mp hR).1 f hf
        omega

/-- What the order of the map says of the parts of a split. -/
theorem WriteSplit.pairwise_parts (h : WriteCacheInv m) {L S R : WriteCacheMap} {dc : DataCache}
    (hs : WriteSplit a len m L S R dc) :
    (∀ e ∈ L, e.1 < dc.chunkPos ∧ e.1 < a ∧ e.2.chunkPos + e.2.len < dc.chunkPos) ∧
      (∀ e ∈ S, dc.chunkPos + dc.len < e.2.chunkPos) ∧
      (∀ e ∈ R, dc.chunkPos < e.1 ∧ a + len < e.1 ∧ dc.chunkPos + dc.len < e.2.chunkPos) ∧
      (∀ e ∈ S, ∀ f ∈ R, e.2.chunkPos + e.2.len < f.2.chunkPos) ∧
      S.Pairwise (fun e f => e.2.chunkPos + e.2.len < f.2.chunkPos) := by
  have hpair := h.pairwise
  rw [hs.eq, List.pairwise_append, List.pairwise_cons, List.pairwise_append] at hpair
  obtain ⟨-, ⟨hdc, hS, -, hSR⟩, hL⟩ := hpair
  have hkey : ∀ e ∈ L ++ (dc.chunkPos, dc) :: (S ++ R), e.1 = e.2.chunkPos := hs.eq ▸ h.key_eq
  refine ⟨fun e he => ?_, fun e he => hdc e (List.mem_append_left _ he), fun e he => ?_, hSR, hS⟩
  · have := hL e he _ List.mem_cons_self
    have := hs.before e he
    rw [hkey e (List.mem_append_left _ he)]
    dsimp only at *
    omega
  · have := hdc e (List.mem_append_right _ he)
    have := hs.after e he
    rw [hkey e (by simp [he])]
    dsimp only at *
    omega

end Find

/-! ## What a write does to the map -/

/-- The swallowed cache a write reaches into without covering it, as an extent: the first that
ends past the write's end (the tail `DataCache::Write` merges), or else an empty extent at the
write's end. -/
def tailExtent (writeEnd : Nat) (mergeDataCacheVer : List DataCache) : Nat × List UInt8 :=
  match mergeDataCacheVer.find? fun mc => decide (writeEnd < mc.chunkPos + mc.len) with
  | some mc => mc.extent
  | none => (writeEnd, [])

theorem tailExtent_of_find?_eq_some {b : Nat} {l : List DataCache} {mc : DataCache}
    (h : l.find? (fun mc => decide (b < mc.chunkPos + mc.len)) = some mc) :
    tailExtent b l = mc.extent := by
  rw [tailExtent, h]

theorem tailExtent_of_find?_eq_none {b : Nat} {l : List DataCache}
    (h : l.find? (fun mc => decide (b < mc.chunkPos + mc.len)) = none) :
    tailExtent b l = (b, []) := by
  rw [tailExtent, h]

theorem tailExtent_cons_of_lt {b : Nat} {mc : DataCache} {l : List DataCache}
    (h : b < mc.chunkPos + mc.len) : tailExtent b (mc :: l) = mc.extent :=
  tailExtent_of_find?_eq_some (List.find?_cons_of_pos (by simpa using h))

theorem tailExtent_cons_of_le {b : Nat} {mc : DataCache} {l : List DataCache}
    (h : mc.chunkPos + mc.len ≤ b) : tailExtent b (mc :: l) = tailExtent b l := by
  unfold tailExtent
  rw [List.find?_cons_of_neg (by simpa using h)]

/-- The map entry of the cache whose extent is `e`. -/
def entryOfExtent (e : Nat × List UInt8) : Nat × DataCache := (e.1, ⟨e.1, e.2⟩)

@[simp]
theorem extent_entryOfExtent (e : Nat × List UInt8) : (entryOfExtent e).2.extent = e := rfl

section WriteBranches

variable {dc : DataCache} {a : Nat} {data : List UInt8}

/-- The copy into the cache of the part of a write from the cache's start on, where the write
starts at or before the cache. -/
theorem copyBufToDataCache_front (hA : a ≤ dc.chunkPos) (hB : dc.chunkPos ≤ a + data.length) :
    dc.copyBufToDataCache 0 (a + data.length - dc.chunkPos) (data.drop (dc.chunkPos - a)) =
      ⟨dc.chunkPos, data.drop (dc.chunkPos - a) ++
        dc.data.drop (a + data.length - dc.chunkPos)⟩ := by
  have htake : (data.drop (dc.chunkPos - a)).take (a + data.length - dc.chunkPos) =
      data.drop (dc.chunkPos - a) := List.take_of_length_le (by rw [List.length_drop]; omega)
  rw [DataCache.copyBufToDataCache, htake, writeAt_zero, List.length_drop]
  congr 3
  omega

/-- The copy of a write that starts inside the cache or at its end. -/
theorem copyBufToDataCache_back (hA : dc.chunkPos ≤ a) (ha : a ≤ dc.chunkPos + dc.len) :
    dc.copyBufToDataCache (a - dc.chunkPos) data.length data =
      ⟨dc.chunkPos, dc.data.take (a - dc.chunkPos) ++ data ++
        dc.data.drop (a + data.length - dc.chunkPos)⟩ := by
  rw [DataCache.copyBufToDataCache, List.take_length,
    writeAt_of_le (by unfold DataCache.len at ha; omega)]
  congr 4
  omega

/-- The tail of a swallowed cache `mc` past the write's end, appended. -/
theorem mergeDataCacheToDataCache_tail {c : Nat} {d : List UInt8} {mc : DataCache} {b n : Nat}
    (hmc : mc.chunkPos ≤ b + n) :
    (⟨c, d⟩ : DataCache).mergeDataCacheToDataCache mc (b + n - mc.chunkPos)
        (mc.chunkPos + mc.len - b - n) =
      ⟨c, d ++ mc.data.drop (b + n - mc.chunkPos)⟩ := by
  rw [DataCache.mergeDataCacheToDataCache,
    List.take_of_length_le (by rw [List.length_drop]; unfold DataCache.len; omega)]

/-- The bytes of the write before the cache, put in front of it. -/
theorem addDataBefore_front {c : Nat} (hA : a ≤ c) (T : List UInt8) :
    (⟨c, data.drop (c - a) ++ T⟩ : DataCache).addDataBefore (c - a) data = ⟨a, data ++ T⟩ := by
  rw [DataCache.addDataBefore, ← List.append_assoc, List.take_append_drop]
  congr 1
  dsimp only
  omega

end WriteBranches

/-- `UpdateWriteCacheMap` of a cache held under `s` that now starts at or before `s`: it moves
to its new key, in order. -/
theorem updateWriteCacheMap_split {L R : WriteCacheMap} {s : Nat} {dc' : DataCache}
    (hL : ∀ e ∈ L, e.1 < dc'.chunkPos) (hle : dc'.chunkPos ≤ s) (hR : ∀ e ∈ R, s < e.1) :
    updateWriteCacheMap s dc' (L ++ (s, dc') :: R) = L ++ (dc'.chunkPos, dc') :: R := by
  have hfind : (L ++ (s, dc') :: R).find? (fun e => decide (e.1 = s)) = some (s, dc') := by
    rw [List.find?_append, List.find?_eq_none.mpr fun e he => by
        simpa using Nat.ne_of_lt (Nat.lt_of_lt_of_le (hL e he) hle),
      Option.none_or, List.find?_cons_of_pos (by simp)]
  have herase : eraseKey s (L ++ (s, dc') :: R) = L ++ R := by
    rw [eraseKey, List.filter_append, List.filter_cons_of_neg (by simp),
      List.filter_eq_self.mpr fun e he => by simpa using Nat.ne_of_lt (Nat.lt_of_lt_of_le (hL e he) hle),
      List.filter_eq_self.mpr fun e he => by simpa using Nat.ne_of_gt (hR e he)]
  rw [updateWriteCacheMap, hfind]
  dsimp only
  rw [herase, emplace, orderedSetInsert_append]
  · intro y hy
    cases R with
    | nil => cases hy
    | cons r R' =>
      cases Option.some.inj hy
      simpa using Nat.lt_of_le_of_lt hle (hR _ List.mem_cons_self)
  · intro x hx
    have := hL x hx
    simp only [decide_eq_false_iff_not, decide_eq_true_eq]
    omega

section Write

variable {m L S R : WriteCacheMap} {dc : DataCache} {a : Nat} {data : List UInt8}

/-- `DataCache::Write` into the cache a split finds: the map holds the cache spliced with the
write and the tail of the swallowed caches, in place of the cache and the caches swallowed. -/
theorem write_of_writeSplit (h : WriteCacheInv m) (hs : WriteSplit a data.length m L S R dc) :
    dc.write dc.chunkPos a data.length data (S.map (·.2)) (L ++ (dc.chunkPos, dc) :: R) =
      L ++ entryOfExtent (spliceExtent dc.extent a data
        (tailExtent (a + data.length) (S.map (·.2)))) :: R := by
  obtain ⟨hL, hS, hR, -, -⟩ := hs.pairwise_parts h
  -- a write that ends inside the cache swallows nothing
  have hS_nil : a + data.length ≤ dc.chunkPos + dc.len → S = [] := fun hin =>
    List.eq_nil_iff_forall_not_mem.mpr fun e he => by
      have := hS e he
      have := hs.swallowed e he
      omega
  have hLs : ∀ e ∈ L, e.1 < dc.chunkPos := fun e he => (hL e he).1
  unfold DataCache.write
  dsimp only
  by_cases hA : a ≤ dc.chunkPos
  · -- the write starts at or before the cache, which moves to key `a`
    have hLa : ∀ e ∈ L, e.1 < a := fun e he => (hL e he).2.1
    have hRs : ∀ e ∈ R, dc.chunkPos < e.1 := fun e he => (hR e he).1
    rw [if_pos hA, copyBufToDataCache_front hA hs.touch_right, spliceExtent_of_le hA]
    by_cases hin : a + data.length ≤ dc.chunkPos + dc.len
    · obtain rfl := hS_nil hin
      rw [if_pos hin, addDataBefore_front hA, orderedMapAssign_append hLs,
        updateWriteCacheMap_split hLa hA hRs, List.map_nil,
        tailExtent_of_find?_eq_none List.find?_nil, List.drop_nil, List.append_nil]
      rfl
    rw [if_neg hin]
    split
    next mc ht =>
      -- the tail of the swallowed cache past the write is merged
      obtain ⟨e, he, rfl⟩ := List.mem_map.mp (List.mem_of_find?_eq_some ht)
      rw [mergeDataCacheToDataCache_tail (hs.swallowed e he), List.append_assoc,
        addDataBefore_front hA, orderedMapAssign_append hLs, updateWriteCacheMap_split hLa hA hRs,
        tailExtent_of_find?_eq_some ht]
      rfl
    next ht =>
      rw [addDataBefore_front hA, orderedMapAssign_append hLs,
        updateWriteCacheMap_split hLa hA hRs, tailExtent_of_find?_eq_none ht, List.drop_nil,
        List.append_nil]
      rfl
  · -- the write starts inside the cache, which keeps its key
    rw [if_neg hA, copyBufToDataCache_back (by omega) hs.touch_left,
      spliceExtent_of_ge (by unfold DataCache.extent; omega)]
    by_cases hin : a + data.length ≤ dc.chunkPos + dc.len
    · obtain rfl := hS_nil hin
      rw [if_pos hin, orderedMapAssign_append hLs, List.map_nil,
        tailExtent_of_find?_eq_none List.find?_nil, List.drop_nil, List.append_nil]
      rfl
    rw [if_neg hin]
    split
    next mc ht =>
      obtain ⟨e, he, rfl⟩ := List.mem_map.mp (List.mem_of_find?_eq_some ht)
      rw [mergeDataCacheToDataCache_tail (hs.swallowed e he), orderedMapAssign_append hLs,
        tailExtent_of_find?_eq_some ht, List.append_assoc]
      rfl
    next ht =>
      rw [orderedMapAssign_append hLs, tailExtent_of_find?_eq_none ht, List.drop_nil,
        List.append_nil]
      rfl

/-- The tail of the caches a split swallows starts inside the write, ends before the caches
after it, and is empty where the cache found reaches past the write. -/
theorem tailExtent_bounds (h : WriteCacheInv m) (hs : WriteSplit a data.length m L S R dc) :
    a ≤ (tailExtent (a + data.length) (S.map (·.2))).1 ∧
      (tailExtent (a + data.length) (S.map (·.2))).1 ≤ a + data.length ∧
      (a + data.length < dc.chunkPos + dc.len →
        (tailExtent (a + data.length) (S.map (·.2))).1 +
          (tailExtent (a + data.length) (S.map (·.2))).2.length ≤ a + data.length) ∧
      ∀ f ∈ R, (tailExtent (a + data.length) (S.map (·.2))).1 +
        (tailExtent (a + data.length) (S.map (·.2))).2.length < f.2.chunkPos := by
  obtain ⟨-, hS, -, hSR, -⟩ := hs.pairwise_parts h
  cases ht : (S.map (·.2)).find? (fun mc => decide (a + data.length < mc.chunkPos + mc.len)) with
  | none =>
    rw [tailExtent_of_find?_eq_none ht]
    exact ⟨Nat.le_add_right a _, le_rfl, fun _ => le_rfl, hs.after⟩
  | some mc =>
    obtain ⟨e, he, rfl⟩ := List.mem_map.mp (List.mem_of_find?_eq_some ht)
    rw [tailExtent_of_find?_eq_some ht]
    have hdc := hS e he
    have hsw := hs.swallowed e he
    have := hs.touch_left
    exact ⟨by dsimp only [DataCache.extent]; omega, hsw, fun _ => by omega,
      fun f hf => hSR e he f hf⟩

end Write

/-! ## What a write does to the contents -/

/-- Outside a write, the caches it swallows hold what their tail holds. -/
theorem extentAt_swallowed {a b q : Nat} (hq : q < a ∨ b ≤ q) :
    ∀ {S : WriteCacheMap}, (∀ e ∈ S, a ≤ e.2.chunkPos ∧ e.2.chunkPos ≤ b) →
      S.Pairwise (fun e f => e.2.chunkPos + e.2.len < f.2.chunkPos) →
      extentAt (extents S) q = extentOf (tailExtent b (S.map (·.2))) q
  | [], _, _ => by
    rw [List.map_nil, tailExtent_of_find?_eq_none List.find?_nil, extentOf_nil]
    rfl
  | e :: S, hS, hp => by
    have he := hS e List.mem_cons_self
    rw [List.pairwise_cons] at hp
    rw [extents_cons, extentAt_cons, List.map_cons]
    by_cases htail : b < e.2.chunkPos + e.2.len
    · -- a cache that ends past the write is the last one swallowed
      have hnil : S = [] := List.eq_nil_iff_forall_not_mem.mpr fun f hf => by
        have := hp.1 f hf
        have := (hS f (List.mem_cons_of_mem e hf)).2
        omega
      subst hnil
      rw [tailExtent_cons_of_lt htail, extents, List.map_nil, extentAt_nil, Option.or_none]
    · rw [tailExtent_cons_of_le (by omega), extentOf_of_not_mem (by
          unfold DataCache.extent DataCache.len at *
          dsimp only
          omega), Option.none_or]
      exact extentAt_swallowed hq (fun f hf => hS f (List.mem_cons_of_mem e hf)) hp.2

/-- What a map holds with a cache between two parts of it. -/
theorem cacheContents_insert (L R : WriteCacheMap) (e : Nat × DataCache) (q : Nat) :
    cacheContents (L ++ e :: R) q =
      (extentAt (extents L) q).or ((extentOf e.2.extent q).or (extentAt (extents R) q)) := by
  rw [cacheContents, extents_append, extents_cons, extentAt_append, extentAt_cons]

/-- Caches that end before `q` hold nothing there. -/
theorem extentAt_of_before {L : WriteCacheMap} {q : Nat}
    (hL : ∀ e ∈ L, e.2.chunkPos + e.2.len ≤ q) : extentAt (extents L) q = none :=
  extentAt_eq_none fun x hx => by
    obtain ⟨e, he, rfl⟩ := List.mem_map.mp hx
    exact extentOf_of_le (hL e he)

/-- A cache put between the caches before it and those after it keeps the invariant. -/
theorem WriteCacheInv.insert {L R : WriteCacheMap} {e : Nat × DataCache}
    (h : WriteCacheInv (L ++ R)) (hkey : e.1 = e.2.chunkPos) (hlen : 0 < e.2.len)
    (hL : ∀ f ∈ L, f.2.chunkPos + f.2.len < e.2.chunkPos)
    (hR : ∀ f ∈ R, e.2.chunkPos + e.2.len < f.2.chunkPos) : WriteCacheInv (L ++ e :: R) := by
  have hp := List.pairwise_append.mp h.pairwise
  refine .of_pairwise (fun f hf => ?_) (fun f hf => ?_) ?_
  · rcases List.mem_append.mp hf with hf | hf
    · exact h.key_eq f (List.mem_append_left R hf)
    rcases List.mem_cons.mp hf with rfl | hf
    · exact hkey
    · exact h.key_eq f (List.mem_append_right L hf)
  · rcases List.mem_append.mp hf with hf | hf
    · exact h.len_pos (List.mem_append_left R hf)
    rcases List.mem_cons.mp hf with rfl | hf
    · exact hlen
    · exact h.len_pos (List.mem_append_right L hf)
  · refine List.pairwise_append.mpr ⟨hp.1, List.pairwise_cons.mpr ⟨hR, hp.2.1⟩, ?_⟩
    intro f hf g hg
    rcases List.mem_cons.mp hg with rfl | hg
    · exact hL f hf
    · exact hp.2.2 f hf g hg

/-- `emplace` of a fresh key into a map with increasing keys goes between the smaller keys
and the larger ones. -/
theorem emplace_eq_append (k : Nat) (c : DataCache) :
    ∀ {m : WriteCacheMap}, m.Pairwise (fun e f => e.1 < f.1) → (∀ e ∈ m, e.1 ≠ k) →
      ∃ L R, m = L ++ R ∧ (∀ e ∈ L, e.1 < k) ∧ (∀ e ∈ R, k < e.1) ∧
        emplace k c m = L ++ (k, c) :: R
  | [], _, _ => ⟨[], [], rfl, fun _ h => absurd h List.not_mem_nil,
      fun _ h => absurd h List.not_mem_nil, rfl⟩
  | e :: m, hp, hne => by
    rw [List.pairwise_cons] at hp
    have hek := hne e List.mem_cons_self
    unfold emplace orderedSetInsert
    by_cases hlt : k < e.1
    · -- the new key goes first
      refine ⟨[], e :: m, rfl, fun _ h => absurd h List.not_mem_nil, fun f hf => ?_, ?_⟩
      · rcases List.mem_cons.mp hf with rfl | hf
        · exact hlt
        · exact lt_trans hlt (hp.1 f hf)
      · rw [if_pos (by simpa using hlt)]
        rfl
    · have hgt : e.1 < k := by omega
      obtain ⟨L, R, rfl, hL, hR, hins⟩ :=
        emplace_eq_append k c hp.2 fun f hf => hne f (List.mem_cons_of_mem e hf)
      refine ⟨e :: L, R, rfl, fun f hf => ?_, hR, ?_⟩
      · rcases List.mem_cons.mp hf with rfl | hf
        · exact hgt
        · exact hL f hf
      · rw [if_neg (by simpa using hlt), if_pos (by simpa using hgt)]
        unfold emplace at hins
        rw [hins]
        rfl

section WriteChunk

variable {m : WriteCacheMap} {a : Nat} {data : List UInt8}

/-- `WriteNewDataCache` of a write that touches no cache, at a position and of a length that
fit the `uint32_t` parameters: the new cache goes between the caches before the write and those
after it. -/
theorem writeNewDataCache_eq (h : WriteCacheInv m) (ha : a < 2 ^ 32)
    (hl : data.length < 2 ^ 32)
    (hm : ∀ e ∈ m, e.2.chunkPos + e.2.len < a ∨ a + data.length < e.2.chunkPos) :
    ∃ L R, m = L ++ R ∧ (∀ e ∈ L, e.2.chunkPos + e.2.len < a) ∧
      (∀ e ∈ R, a + data.length < e.2.chunkPos) ∧
      writeNewDataCache a data.length data m = L ++ (a, ⟨a, data⟩) :: R := by
  -- no cache starts at `a`, since each ends before it or starts past the write
  have hne : ∀ e ∈ m, e.1 ≠ a := fun e he => by
    rw [h.key_eq e he]
    have := hm e he
    omega
  obtain ⟨L, R, hLR, hL, hR, hins⟩ := emplace_eq_append a ⟨a, data⟩ h.pairwise_key hne
  refine ⟨L, R, hLR, fun e he => ?_, fun e he => ?_, ?_⟩
  · have hk := hL e he
    have := hm e (hLR ▸ List.mem_append_left R he)
    rw [h.key_eq e (hLR ▸ List.mem_append_left R he)] at hk
    omega
  · have hk := hR e he
    have := hm e (hLR ▸ List.mem_append_right L he)
    rw [h.key_eq e (hLR ▸ List.mem_append_right L he)] at hk
    omega
  · rw [writeNewDataCache, Nat.mod_eq_of_lt ha, Nat.mod_eq_of_lt hl, DataCache.ofData,
      List.take_length, hins]

/-- `WriteChunk` of a write that touches no cache. -/
theorem writeChunk_spec_of_none (h : WriteCacheInv m) (hpos : 0 < data.length)
    (ha : a < 2 ^ 32) (hl : data.length < 2 ^ 32)
    (hfind : findWriteableDataCache a data.length m = (none, [], m))
    (hm : ∀ e ∈ m, e.2.chunkPos + e.2.len < a ∨ a + data.length < e.2.chunkPos) :
    WriteCacheInv (writeChunk a data.length data m) ∧
      ∀ q, cacheContents (writeChunk a data.length data m) q =
        putRange (cacheContents m) a data q := by
  obtain ⟨L, R, hLR, hL, hR, hnew⟩ := writeNewDataCache_eq h ha hl hm
  have hw : writeChunk a data.length data m = L ++ (a, ⟨a, data⟩) :: R := by
    rw [writeChunk, hfind]
    exact hnew
  rw [hw]
  refine ⟨(hLR ▸ h).insert rfl hpos hL hR, fun q => ?_⟩
  rw [cacheContents_insert, putRange, hLR, cacheContents, extents_append, extentAt_append]
  split_ifs with hq
  · -- inside the write: the caches before it end below `q`
    rw [extentAt_of_before fun e he => (hL e he).le.trans hq.1, Option.none_or,
      DataCache.extent, extentOf_of_le_start hq.1]
    dsimp only
    rw [List.getElem?_eq_getElem (by omega), Option.some_or]
  · rw [extentOf_of_not_mem (by dsimp only [DataCache.extent]; omega), Option.none_or]

/-- `WriteChunk` of a write that touches a cache: the split of the map, with the cache found
spliced. -/
theorem writeChunk_spec_of_split {L S R : WriteCacheMap} {dc : DataCache}
    (h : WriteCacheInv m) (hpos : 0 < data.length) (hs : WriteSplit a data.length m L S R dc)
    (hfind : findWriteableDataCache a data.length m =
      (some (dc.chunkPos, dc), S.map (·.2), L ++ (dc.chunkPos, dc) :: R)) :
    WriteCacheInv (writeChunk a data.length data m) ∧
      ∀ q, cacheContents (writeChunk a data.length data m) q =
        putRange (cacheContents m) a data q := by
  obtain ⟨hL, hS, hR, hSR, hSp⟩ := hs.pairwise_parts h
  obtain ⟨hz₁, hz₂, hz₃, hz₄⟩ := tailExtent_bounds h hs
  have hw : writeChunk a data.length data m = L ++ entryOfExtent (spliceExtent dc.extent a data
      (tailExtent (a + data.length) (S.map (·.2)))) :: R := by
    rw [writeChunk, hfind]
    exact write_of_writeSplit h hs
  -- outside the write, the swallowed caches hold what their tail holds
  have hsw : ∀ q, q < a ∨ a + data.length ≤ q →
      extentAt (extents S) q = extentOf (tailExtent (a + data.length) (S.map (·.2))) q :=
    fun q hq => extentAt_swallowed hq (fun e he => ⟨by
      have := hS e he
      have := hs.touch_left
      omega, hs.swallowed e he⟩) hSp
  rw [hw]
  generalize tailExtent (a + data.length) (S.map (·.2)) = z at hz₁ hz₂ hz₃ hz₄ hsw ⊢
  have hend : (spliceExtent dc.extent a data z).1 + (spliceExtent dc.extent a data z).2.length =
      max (a + data.length) (max (dc.chunkPos + dc.len) (z.1 + z.2.length)) :=
    spliceExtent_end hs.touch_left hs.touch_right hz₂ hz₃
  have hstart : (spliceExtent dc.extent a data z).1 = min a dc.chunkPos := rfl
  refine ⟨?_, fun q => ?_⟩
  · -- the spliced cache ends before the caches after it, which start past everything it holds
    have hLR : WriteCacheInv (L ++ R) := h.sublist (by
      rw [hs.eq]
      exact (List.Sublist.refl L).append ((List.sublist_append_right S R).cons _))
    refine hLR.insert rfl ?_ (fun f hf => ?_) (fun f hf => ?_)
    · show 0 < (spliceExtent dc.extent a data z).2.length
      simp only [spliceExtent, List.length_append]
      omega
    · have := hL f hf
      have := hs.before f hf
      show f.2.chunkPos + f.2.len < (spliceExtent dc.extent a data z).1
      rw [hstart]
      omega
    · have := hR f hf
      have := hz₄ f hf
      have := hs.after f hf
      show (spliceExtent dc.extent a data z).1 + (spliceExtent dc.extent a data z).2.length <
        f.2.chunkPos
      rw [hend]
      omega
  · have hsplice := @extentOf_spliceExtent _ dc.extent z a data hs.touch_left hs.touch_right
      hz₁ hz₂ hz₃ q
    rw [putRange, hs.eq, cacheContents_insert, cacheContents_insert, extents_append,
      extentAt_append, extent_entryOfExtent, hsplice, putRange]
    split_ifs with hq
    · -- inside the write: the caches before it end below `q`
      rw [extentAt_of_before fun e he => (hs.before e he).le.trans hq.1, Option.none_or,
        List.getElem?_eq_getElem (by omega), Option.some_or]
    · rw [hsw q (by omega), Option.or_assoc]

/-- `FileCacheManager::WriteChunk` of a nonempty write at a position and of a length that fit
in `uint32_t` keeps the invariant, and the write cache then holds the written bytes over the
write and what it held elsewhere. -/
theorem writeChunk_spec (h : WriteCacheInv m) (hpos : 0 < data.length) (ha : a < 2 ^ 32)
    (hl : data.length < 2 ^ 32) :
    WriteCacheInv (writeChunk a data.length data m) ∧
      ∀ q, cacheContents (writeChunk a data.length data m) q =
        putRange (cacheContents m) a data q := by
  rcases @findWriteableDataCache_cases m a data.length h with ⟨hfind, hm⟩ |
      ⟨L, S, R, dc, hs, hfind⟩
  · exact writeChunk_spec_of_none h hpos ha hl hfind hm
  · exact writeChunk_spec_of_split h hpos hs hfind

end WriteChunk

/-! ## What a truncate does -/

theorem cacheContents_concat (m : WriteCacheMap) (e : Nat × DataCache) (q : Nat) :
    cacheContents (m ++ [e]) q = (cacheContents m q).or (extentOf e.2.extent q) := by
  rw [cacheContents_insert, cacheContents, show extentAt (extents []) q = none from rfl,
    Option.or_none]

/-- One round of the loop of `TruncateWriteCache`, on the last cache of the map. -/
theorem truncateWriteCache_concat (p : Nat) (m : WriteCacheMap) (e : Nat × DataCache) :
    truncateWriteCache p (m ++ [e]) =
      if p ≤ e.2.chunkPos then truncateWriteCache p m
      else if e.2.chunkPos < p ∧ p < e.2.chunkPos + e.2.len then
        m ++ [(e.1, e.2.truncate (p - e.2.chunkPos))]
      else m ++ [e] := by
  obtain ⟨k, dc⟩ := e
  rw [truncateWriteCache, List.reverse_append, List.reverse_singleton, List.singleton_append,
    truncateWriteCacheLoop]
  split_ifs <;> simp [truncateWriteCache]

/-- `TruncateWriteCache` to `p` keeps the invariant and clears what the caches hold from `p`
on. The induction runs from the last cache back, as the source's loop does. -/
theorem truncateWriteCache_spec (p : Nat) {m : WriteCacheMap} (h : WriteCacheInv m) :
    WriteCacheInv (truncateWriteCache p m) ∧
      ∀ q, cacheContents (truncateWriteCache p m) q = cutFrom (cacheContents m) p q := by
  induction m using List.reverseRecOn with
  | nil => exact ⟨writeCacheInv_nil, fun q => by unfold cutFrom; split_ifs <;> rfl⟩
  | append_singleton m e ih =>
    have hm : WriteCacheInv m := h.sublist (List.sublist_append_left m [e])
    have hbefore : ∀ f ∈ m, f.2.chunkPos + f.2.len < e.2.chunkPos := fun f hf =>
      (List.pairwise_append.mp h.pairwise).2.2 f hf e List.mem_cons_self
    have hlen := h.len_pos (List.mem_append_right m List.mem_cons_self)
    rw [truncateWriteCache_concat]
    split_ifs with h₁ h₂
    · -- the last cache lies past `p`: it goes, and the loop goes on
      refine ⟨(ih hm).1, fun q => ?_⟩
      rw [(ih hm).2, cutFrom, cutFrom, cacheContents_concat]
      split_ifs with hq
      · rfl
      · rw [extentOf_of_lt (by dsimp only [DataCache.extent]; omega), Option.or_none]
    · -- the last cache straddles `p`: it is cut, and the loop stops
      have hkey := h.key_eq e (List.mem_append_right m List.mem_cons_self)
      refine ⟨WriteCacheInv.insert (by rwa [List.append_nil] : WriteCacheInv (m ++ [])) hkey
        (by simp only [DataCache.truncate, DataCache.len, List.length_take] at hlen ⊢; omega)
        hbefore (fun f hf => absurd hf List.not_mem_nil), fun q => ?_⟩
      rw [cacheContents_concat, cutFrom, cacheContents_concat]
      unfold DataCache.truncate DataCache.extent
      dsimp only
      rw [extentOf_take]
      by_cases hq : p ≤ q
      · -- from `p` on, the caches before the last end below `p`, and the cut one at `p`
        have hm_none : cacheContents m q = none := extentAt_of_before fun f hf => by
          have := hbefore f hf
          omega
        rw [if_pos hq, if_neg (by omega), Option.or_none, hm_none]
      · rw [if_neg hq, if_pos (by omega)]
    · -- the last cache ends by `p`: nothing is cut
      refine ⟨h, fun q => ?_⟩
      rw [cutFrom]
      split_ifs with hq
      · rw [cacheContents_concat, cacheContents, extentAt_of_before fun f hf => by
          have := hbefore f hf; omega, Option.none_or, extentOf_of_le (by
            dsimp only [DataCache.extent]; unfold DataCache.len at *; omega)]
      · rfl

/-! ## What a read finds -/

/-- What a read of `n` bytes at `pos` into the buffer at `off` must give, for the contents
`c`: the copies put into the buffer exactly what `c` holds of the range, each byte at its
offset, and nothing outside the range's place in the buffer; the requests are the maximal runs
of the range that `c` does not hold, in order, each with its buffer offset. -/
structure ReadSpec (c : Nat → Option UInt8) (index pos n off : Nat)
    (copies : List (Nat × List UInt8)) (requests : List ReadRequest) : Prop where
  copied : ∀ q, pos ≤ q → q < pos + n → extentAt copies (off + (q - pos)) = c q
  copied_within : ∀ i, extentAt copies i ≠ none → off ≤ i ∧ i < off + n
  requested : ∀ q, pos ≤ q → q < pos + n → c q = none →
    ∃ r ∈ requests, r.chunkPos ≤ q ∧ q < r.chunkPos + r.len
  request_in : ∀ r ∈ requests, r.index = index ∧ 0 < r.len ∧ pos ≤ r.chunkPos ∧
    r.chunkPos + r.len ≤ pos + n ∧ r.bufOffset = off + (r.chunkPos - pos)
  request_missing : ∀ r ∈ requests, ∀ q, r.chunkPos ≤ q → q < r.chunkPos + r.len → c q = none
  request_maximal : ∀ r ∈ requests, (r.chunkPos = pos ∨ c (r.chunkPos - 1) ≠ none) ∧
    (r.chunkPos + r.len = pos + n ∨ c (r.chunkPos + r.len) ≠ none)
  sorted : requests.Pairwise fun r r' => r.chunkPos + r.len < r'.chunkPos

namespace ReadSpec

variable {c c' : Nat → Option UInt8} {index pos n off : Nat}
  {copies : List (Nat × List UInt8)} {requests : List ReadRequest}

/-- Only what the contents hold inside the range matters. -/
theorem congr (h : ReadSpec c index pos n off copies requests)
    (hc : ∀ q, pos ≤ q → q < pos + n → c q = c' q) :
    ReadSpec c' index pos n off copies requests where
  copied q h₁ h₂ := by rw [← hc q h₁ h₂]; exact h.copied q h₁ h₂
  copied_within := h.copied_within
  requested q h₁ h₂ hq := h.requested q h₁ h₂ (by rw [hc q h₁ h₂]; exact hq)
  request_in := h.request_in
  request_missing r hr q h₁ h₂ := by
    have := h.request_in r hr
    rw [← hc q (by omega) (by omega)]
    exact h.request_missing r hr q h₁ h₂
  request_maximal r hr := by
    obtain ⟨-, hlen, hlo, hhi, -⟩ := h.request_in r hr
    obtain ⟨hl, hr'⟩ := h.request_maximal r hr
    constructor
    · -- a request that does not start the range starts after `pos`, so the byte before it is
      -- inside the range
      by_cases hs : r.chunkPos = pos
      · exact .inl hs
      · exact .inr (by rw [← hc _ (by omega) (by omega)]; exact hl.resolve_left hs)
    · by_cases he : r.chunkPos + r.len = pos + n
      · exact .inl he
      · exact .inr (by rw [← hc _ (by omega) (by omega)]; exact hr'.resolve_left he)
  sorted := h.sorted

/-- A range the contents hold nothing of is one request. -/
theorem uncovered (hn : 0 < n) (hnone : ∀ q, pos ≤ q → q < pos + n → c q = none) :
    ReadSpec c index pos n off [] [⟨index, pos, n, off⟩] where
  copied q h₁ h₂ := (hnone q h₁ h₂).symm
  copied_within _ hi := (hi rfl).elim
  requested q h₁ h₂ _ := ⟨_, List.mem_singleton_self _, h₁, h₂⟩
  request_in r hr := by
    rw [List.mem_singleton] at hr
    subst hr
    exact ⟨rfl, hn, le_rfl, le_rfl, by simp⟩
  request_missing r hr q h₁ h₂ := by
    rw [List.mem_singleton] at hr
    subst hr
    exact hnone q h₁ h₂
  request_maximal r hr := by
    rw [List.mem_singleton] at hr
    subst hr
    exact ⟨.inl rfl, .inl rfl⟩
  sorted := List.pairwise_singleton _ _

/-- An empty range needs nothing. -/
theorem empty (c : Nat → Option UInt8) (index pos off : Nat) :
    ReadSpec c index pos 0 off [] [] where
  copied q h₁ h₂ := by omega
  copied_within _ hi := (hi rfl).elim
  requested q h₁ h₂ := by omega
  request_in _ hr := absurd hr List.not_mem_nil
  request_missing _ hr := absurd hr List.not_mem_nil
  request_maximal _ hr := absurd hr List.not_mem_nil
  sorted := List.Pairwise.nil

/-- Nothing is left at the end of the read. -/
theorem empty_end (c : Nat → Option UInt8) (index pos n off : Nat) :
    ReadSpec c index (pos + n) (pos + n - (pos + n)) (off + (pos + n - pos)) [] [] := by
  rw [Nat.sub_self]
  exact empty _ _ _ _

/-- One round of the loop: the range from `pos` to `e` is a run `c` does not hold, up to `u`,
then a run it holds, copied as `bytes` to its place in the buffer; what the rounds after it
give for the range from `e` on is put behind. -/
theorem prepend {e o : Nat} {bytes : List UInt8} {pre : List ReadRequest} (u : Nat)
    (h : ReadSpec c index e (pos + n - e) (off + (e - pos)) copies requests)
    (hu : pos ≤ u) (hue : u < e) (he : e ≤ pos + n)
    (hnone : ∀ q, pos ≤ q → q < u → c q = none)
    (hsome : ∀ q, u ≤ q → q < e → c q = bytes[q - u]?)
    (hbytes : bytes.length = e - u) (ho : o = off + (u - pos))
    (hpre : pre = if pos < u then [⟨index, pos, u - pos, off⟩] else []) :
    ReadSpec c index pos n off ((o, bytes) :: copies) (pre ++ requests) where
  copied q h₁ h₂ := by
    rw [extentAt_cons, ho]
    by_cases hqu : q < u
    · -- before the copy, where the later copies hold nothing either
      rw [extentOf_of_lt (by dsimp only; omega), Option.none_or, hnone q h₁ hqu]
      by_contra hne
      have := h.copied_within _ hne
      omega
    by_cases hqe : q < e
    · rw [extentOf_of_le_start (by dsimp only; omega), hsome q (by omega) hqe]
      dsimp only
      rw [show off + (q - pos) - (off + (u - pos)) = q - u by omega,
        List.getElem?_eq_getElem (by omega), Option.some_or]
    · rw [extentOf_of_le (by dsimp only; omega), Option.none_or,
        ← h.copied q (by omega) (by omega)]
      congr 1
      omega
  copied_within i hi := by
    rw [extentAt_cons, ne_eq, Option.or_eq_none_iff, not_and_or] at hi
    rcases hi with hi | hi
    · have : o ≤ i ∧ i < o + bytes.length := by
        by_contra hout
        exact hi (extentOf_of_not_mem (by dsimp only; omega))
      omega
    · have := h.copied_within i hi
      omega
  requested q h₁ h₂ hq := by
    by_cases hqu : q < u
    · refine ⟨⟨index, pos, u - pos, off⟩, ?_, h₁, by dsimp only; omega⟩
      rw [hpre, if_pos (by omega)]
      exact List.mem_append_left _ (List.mem_singleton_self _)
    · -- the bytes from `u` to `e` are held, so a missing one lies past `e`
      have hqe : e ≤ q := by
        by_contra hlt
        rw [hsome q (by omega) (by omega), List.getElem?_eq_getElem (by omega)] at hq
        exact Option.some_ne_none _ hq
      obtain ⟨r, hr, hr'⟩ := h.requested q hqe (by omega) hq
      exact ⟨r, List.mem_append_right _ hr, hr'⟩
  request_in r hr := by
    rcases List.mem_append.mp hr with hr | hr
    · rw [hpre] at hr
      split_ifs at hr with hpu
      · rw [List.mem_singleton] at hr
        subst hr
        exact ⟨rfl, by dsimp only; omega, le_rfl, by dsimp only; omega, by dsimp only; omega⟩
      · exact absurd hr List.not_mem_nil
    · obtain ⟨h₁, h₂, h₃, h₄, h₅⟩ := h.request_in r hr
      exact ⟨h₁, h₂, by omega, by omega, by rw [h₅]; omega⟩
  request_missing r hr q h₁ h₂ := by
    rcases List.mem_append.mp hr with hr | hr
    · rw [hpre] at hr
      split_ifs at hr with hpu
      · rw [List.mem_singleton] at hr
        subst hr
        exact hnone q h₁ (by dsimp only at h₂; omega)
      · exact absurd hr List.not_mem_nil
    · exact h.request_missing r hr q h₁ h₂
  request_maximal r hr := by
    -- a byte held, found from `hsome`
    have hheld : ∀ q, u ≤ q → q < e → c q ≠ none := fun q h₁ h₂ => by
      rw [hsome q h₁ h₂, List.getElem?_eq_getElem (by omega)]
      exact Option.some_ne_none _
    rcases List.mem_append.mp hr with hr | hr
    · rw [hpre] at hr
      split_ifs at hr with hpu
      · rw [List.mem_singleton] at hr
        subst hr
        refine ⟨.inl rfl, .inr ?_⟩
        dsimp only
        rw [show pos + (u - pos) = u by omega]
        exact hheld u le_rfl hue
      · exact absurd hr List.not_mem_nil
    · have := h.request_in r hr
      obtain ⟨hl, hr'⟩ := h.request_maximal r hr
      refine ⟨.inr ?_, hr'.imp_left fun h => by omega⟩
      rcases hl with hl | hl
      · rw [hl]
        exact hheld (e - 1) (by omega) (by omega)
      · exact hl
  sorted := by
    rw [hpre]
    split_ifs with hpu
    · rw [List.singleton_append]
      exact List.pairwise_cons.mpr ⟨fun r hr => by
        have := h.request_in r hr
        dsimp only
        omega, h.sorted⟩
    · rw [List.nil_append]
      exact h.sorted

/-- `prepend`, with the rounds after it read at a length and a buffer offset given by
equations. -/
theorem prepend_of_eq {e o n' off' : Nat} {bytes : List UInt8} {pre : List ReadRequest}
    (u : Nat) (h : ReadSpec c index e n' off' copies requests) (hn' : n' = pos + n - e)
    (hoff : off' = off + (e - pos)) (hu : pos ≤ u) (hue : u < e) (he : e ≤ pos + n)
    (hnone : ∀ q, pos ≤ q → q < u → c q = none)
    (hsome : ∀ q, u ≤ q → q < e → c q = bytes[q - u]?)
    (hbytes : bytes.length = e - u) (ho : o = off + (u - pos))
    (hpre : pre = if pos < u then [⟨index, pos, u - pos, off⟩] else []) :
    ReadSpec c index pos n off ((o, bytes) :: copies) (pre ++ requests) := by
  subst hn' hoff
  exact h.prepend u hu hue he hnone hsome hbytes ho hpre

end ReadSpec

/-- What the map holds inside its first cache. -/
theorem cacheContents_cons_of_mem {k q : Nat} {dc : DataCache} {rest : WriteCacheMap}
    (h₁ : dc.chunkPos ≤ q) (h₂ : q < dc.chunkPos + dc.len) :
    cacheContents ((k, dc) :: rest) q = dc.data[q - dc.chunkPos]? := by
  show (extentOf dc.extent q).or (cacheContents rest q) = _
  rw [@extentOf_of_le_start _ dc.extent q h₁]
  show (dc.data[q - dc.chunkPos]?).or _ = _
  rw [List.getElem?_eq_getElem (by unfold DataCache.len at h₂; omega), Option.some_or]

theorem DataCache.length_copyDataCacheToBuf {dc : DataCache} {offset len : Nat}
    (h : offset + len ≤ dc.len) : (dc.copyDataCacheToBuf offset len).length = len := by
  simp only [DataCache.copyDataCacheToBuf, List.length_take, List.length_drop]
  unfold DataCache.len at h
  omega

/-- Inside its first cache, from `u` on, the map holds what a copy of the cache's bytes from
`u` gives. -/
theorem cacheContents_cons_of_copy {k u q offset len : Nat} {dc : DataCache}
    {rest : WriteCacheMap} (hu : dc.chunkPos + offset = u) (hq₁ : u ≤ q) (hq₂ : q < u + len)
    (hend : u + len ≤ dc.chunkPos + dc.len) :
    cacheContents ((k, dc) :: rest) q = (dc.copyDataCacheToBuf offset len)[q - u]? := by
  rw [cacheContents_cons_of_mem (by omega) (by omega), DataCache.copyDataCacheToBuf,
    List.getElem?_take, if_pos (by omega), List.getElem?_drop]
  congr 1
  omega

/-- What the map holds past its first cache. -/
theorem cacheContents_cons_of_ge {k q : Nat} {dc : DataCache} {rest : WriteCacheMap}
    (h : dc.chunkPos + dc.len ≤ q) : cacheContents ((k, dc) :: rest) q = cacheContents rest q := by
  show (extentOf dc.extent q).or (cacheContents rest q) = _
  rw [@extentOf_of_le _ dc.extent q h, Option.none_or]

/-- The map holds nothing before its first cache. -/
theorem cacheContents_cons_of_lt {k q : Nat} {dc : DataCache} {rest : WriteCacheMap}
    (hl : ExtentsOrdered (extents ((k, dc) :: rest))) (h : q < dc.chunkPos) :
    cacheContents ((k, dc) :: rest) q = none := by
  have hafter := (List.pairwise_cons.mp hl.ordered).1
  show (extentOf dc.extent q).or (cacheContents rest q) = _
  rw [@extentOf_of_lt _ dc.extent q h, Option.none_or]
  exact extentAt_eq_none fun f hf => extentOf_of_lt (by
    have := hafter f hf
    dsimp only [DataCache.extent] at this
    omega)

/-- The result of `ReadByWriteCache` from the state its loop ends in: the copies, and the
requests with one for what is left. -/
def WriteCacheRead.result (index : Nat) (r : WriteCacheRead) :
    List (Nat × List UInt8) × List ReadRequest :=
  (r.copies, r.requests ++
    if r.readLen > 0 then [⟨index, r.chunkPos, r.readLen, r.dataBufOffset⟩] else [])

theorem WriteCacheRead.result_prepend (index : Nat) (copies : List (Nat × List UInt8))
    (requests : List ReadRequest) (r : WriteCacheRead) :
    (r.prepend copies requests).result index =
      (copies ++ (r.result index).1, requests ++ (r.result index).2) := by
  simp [WriteCacheRead.prepend, WriteCacheRead.result]

theorem readByWriteCache_of_ne_nil {index pos n off : Nat} {m : WriteCacheMap} (hm : m ≠ []) :
    readByWriteCache index pos n off m =
      (readByWriteCacheLoop index (fromUpperBoundPrev pos m) pos n off).result index := by
  rw [readByWriteCache, if_neg hm]
  rfl

/-- The loop of `ReadByWriteCache` over caches in order, without overlap: each round is one case
of `ReadSpec.prepend` or ends the read. The induction follows the loop's recursion. -/
theorem readByWriteCacheLoop_spec (index : Nat) :
    ∀ (l : WriteCacheMap) (pos n off : Nat), ExtentsOrdered (extents l) → 0 < n →
      ReadSpec (cacheContents l) index pos n off
        ((readByWriteCacheLoop index l pos n off).result index).1
        ((readByWriteCacheLoop index l pos n off).result index).2
  | [], pos, n, off, _, hn => by
    rw [readByWriteCacheLoop, WriteCacheRead.result]
    dsimp only
    rw [if_pos hn, List.nil_append]
    exact ReadSpec.uncovered hn fun q _ _ => rfl
  | (k, dc) :: rest, pos, n, off, hl, hn => by
    have hdc : 0 < dc.len := hl.nonempty _ List.mem_cons_self
    have hrest : ExtentsOrdered (extents rest) := hl.sublist (List.sublist_cons_self _ _)
    -- the window past the first cache is read from the rest of the map
    have hpast : ∀ {p}, dc.chunkPos + dc.len ≤ p → ∀ q, p ≤ q →
        cacheContents rest q = cacheContents ((k, dc) :: rest) q :=
      fun hp q hq => (cacheContents_cons_of_ge (by omega)).symm
    unfold readByWriteCacheLoop
    by_cases h₁ : pos + n ≤ dc.chunkPos
    · -- the read ends before the cache
      rw [if_pos h₁, WriteCacheRead.result]
      dsimp only
      rw [if_pos hn, List.nil_append]
      exact ReadSpec.uncovered hn fun q _ hq => cacheContents_cons_of_lt hl (by omega)
    rw [if_neg h₁]
    by_cases h₂ : pos < dc.chunkPos
    · -- the read starts before the cache: a request, then the cache
      rw [if_pos ⟨by omega, h₂⟩]
      have hnone : ∀ q, pos ≤ q → q < dc.chunkPos → cacheContents ((k, dc) :: rest) q = none :=
        fun q _ hq => cacheContents_cons_of_lt hl hq
      have hpre : [(⟨index, pos, dc.chunkPos - pos, off⟩ : ReadRequest)] =
          if pos < dc.chunkPos then [⟨index, pos, dc.chunkPos - pos, off⟩] else [] := by
        rw [if_pos h₂]
      by_cases h₃ : pos + n ≤ dc.chunkPos + dc.len
      · rw [if_pos h₃, WriteCacheRead.result]
        dsimp only
        rw [if_neg (Nat.lt_irrefl 0), List.append_nil]
        exact ReadSpec.prepend dc.chunkPos (ReadSpec.empty_end _ _ _ _ _) h₂.le (by omega) le_rfl
          hnone (fun q hq₁ hq₂ => cacheContents_cons_of_copy (by omega) hq₁ (by omega) (by omega))
          (DataCache.length_copyDataCacheToBuf (by omega)) (Nat.add_comm _ _) hpre
      · rw [if_neg h₃, WriteCacheRead.result_prepend]
        have ih := readByWriteCacheLoop_spec index rest (dc.chunkPos + dc.len)
          (pos + n - (dc.chunkPos + dc.len)) (dc.chunkPos + dc.len - pos + off) hrest (by omega)
        exact ReadSpec.prepend_of_eq dc.chunkPos (ih.congr fun q hq _ => hpast le_rfl q hq) rfl
          (Nat.add_comm _ _) h₂.le (by omega) (by omega) hnone
          (fun q hq₁ hq₂ => cacheContents_cons_of_copy (by omega) hq₁ hq₂ le_rfl)
          ((DataCache.length_copyDataCacheToBuf (by omega)).trans (by omega)) (Nat.add_comm _ _)
          hpre
    rw [if_neg (by omega)]
    by_cases h₄ : pos < dc.chunkPos + dc.len
    · -- the read starts inside the cache
      rw [if_pos ⟨by omega, h₄⟩]
      have hpre : ([] : List ReadRequest) =
          if pos < pos then [⟨index, pos, pos - pos, off⟩] else [] := by
        rw [if_neg (Nat.lt_irrefl pos)]
      have hnone : ∀ q, pos ≤ q → q < pos → cacheContents ((k, dc) :: rest) q = none :=
        fun q h h' => absurd h (by omega)
      by_cases h₅ : pos + n ≤ dc.chunkPos + dc.len
      · rw [if_pos h₅, WriteCacheRead.result]
        dsimp only
        rw [if_neg (Nat.lt_irrefl 0), List.append_nil]
        exact ReadSpec.prepend pos (ReadSpec.empty_end _ _ _ _ _) le_rfl (by omega) le_rfl hnone
          (fun q hq₁ hq₂ => cacheContents_cons_of_copy (by omega) hq₁ (by omega) (by omega))
          ((DataCache.length_copyDataCacheToBuf (by omega)).trans (by omega)) (by omega) hpre
      · rw [if_neg h₅, WriteCacheRead.result_prepend]
        have ih := readByWriteCacheLoop_spec index rest (dc.chunkPos + dc.len)
          (pos + n - dc.chunkPos - dc.len) (dc.chunkPos + dc.len - pos + off) hrest (by omega)
        exact ReadSpec.prepend_of_eq pos (ih.congr fun q hq _ => hpast le_rfl q hq)
          (Nat.sub_sub _ _ _) (Nat.add_comm _ _) le_rfl h₄ (by omega) hnone
          (fun q hq₁ hq₂ => cacheContents_cons_of_copy (by omega) hq₁ (by omega) (by omega))
          (DataCache.length_copyDataCacheToBuf (by omega)) (by omega) hpre
    · -- the cache ends before the read: the loop goes on
      rw [if_neg (by omega)]
      exact (readByWriteCacheLoop_spec index rest pos n off hrest hn).congr
        fun q hq _ => hpast (by omega) q hq

/-- `ChunkCacheManager::ReadByWriteCache` of `n ≥ 1` bytes over a map whose caches are in order
without overlap meets `ReadSpec` for what the map holds. -/
theorem readByWriteCache_spec {m : WriteCacheMap} (h : ReadCacheInv m) (index pos n off : Nat)
    (hn : 0 < n) :
    ReadSpec (cacheContents m) index pos n off (readByWriteCache index pos n off m).1
      (readByWriteCache index pos n off m).2 := by
  by_cases hm : m = []
  · subst hm
    rw [readByWriteCache, if_pos rfl]
    exact ReadSpec.uncovered hn fun q _ _ => rfl
  rw [readByWriteCache_of_ne_nil hm]
  obtain ⟨pre, hpre, hpre_le⟩ := h.exists_append_fromUpperBoundPrev pos
  have hsub : (fromUpperBoundPrev pos m).Sublist m := List.drop_sublist _ _
  refine (readByWriteCacheLoop_spec index _ pos n off (h.sublist hsub).ordered hn).congr
    fun q hq _ => ?_
  -- the caches the loop starts after end at or before the read
  conv_rhs => rw [hpre, cacheContents, extents_append, extentAt_append,
    extentAt_of_before fun e he => (hpre_le e he).trans hq, Option.none_or]
  rfl

/-- A read of no bytes from an empty map still asks for a read of length zero. -/
example : readByWriteCache 0 5 0 0 [] = ([], [⟨0, 5, 0, 0⟩]) := rfl

/-! ## Runs of writes and truncates -/

/-- An operation on the write cache of one chunk: `WriteChunk` of `data` at `chunkPos`, or
`TruncateCache` to `chunkPos`. -/
inductive CacheOp where
  | writeChunk (chunkPos : Nat) (data : List UInt8)
  | truncateCache (chunkPos : Nat)
deriving DecidableEq, Repr

namespace CacheOp

/-- The write cache after the operation. -/
def apply (m : WriteCacheMap) : CacheOp → WriteCacheMap
  | writeChunk chunkPos data => DingoFs.Client.writeChunk chunkPos data.length data m
  | truncateCache chunkPos => truncateWriteCache chunkPos m

/-- What the chunk holds after the operation: a write puts its bytes, a truncate clears
everything from its position on. -/
def contents (c : Nat → Option UInt8) : CacheOp → Nat → Option UInt8
  | writeChunk chunkPos data => putRange c chunkPos data
  | truncateCache chunkPos => cutFrom c chunkPos

/-- A write of at least one byte inside a chunk of `chunkSize` bytes; any truncate. -/
def valid (chunkSize : Nat) : CacheOp → Bool
  | writeChunk chunkPos data => decide (0 < data.length ∧ chunkPos + data.length ≤ chunkSize)
  | truncateCache _ => true

/-- One operation keeps the invariant and does to what the cache holds what it does to the
chunk. -/
theorem apply_spec {chunkSize : Nat} (hcs : chunkSize < 2 ^ 32) {m : WriteCacheMap}
    (h : WriteCacheInv m) {op : CacheOp} (hv : op.valid chunkSize = true) :
    WriteCacheInv (op.apply m) ∧ cacheContents (op.apply m) = op.contents (cacheContents m) := by
  cases op with
  | writeChunk chunkPos data =>
    simp only [valid, decide_eq_true_eq] at hv
    obtain ⟨hinv, hc⟩ := writeChunk_spec h hv.1 (by omega : chunkPos < 2 ^ 32) (by omega)
    exact ⟨hinv, funext hc⟩
  | truncateCache chunkPos =>
    obtain ⟨hinv, hc⟩ := truncateWriteCache_spec chunkPos h
    exact ⟨hinv, funext hc⟩

end CacheOp

/-- The write cache after a run of operations from an empty `ChunkCacheManager`. -/
def runCacheOps (ops : List CacheOp) : WriteCacheMap := ops.foldl CacheOp.apply []

/-- What a run of operations leaves in the chunk: each byte is what the last write covering it
wrote, unless a truncate at or below it came later. -/
def opsContents (ops : List CacheOp) : Nat → Option UInt8 :=
  ops.foldl CacheOp.contents fun _ => none

/-- Along a run, the invariant holds and the cache holds what the operations leave. The
induction is on the run, with the map and the contents so far as accumulators. -/
theorem foldl_apply_spec {chunkSize : Nat} (hcs : chunkSize < 2 ^ 32) :
    ∀ (ops : List CacheOp) (m : WriteCacheMap), WriteCacheInv m →
      (∀ op ∈ ops, op.valid chunkSize = true) →
      WriteCacheInv (ops.foldl CacheOp.apply m) ∧
        cacheContents (ops.foldl CacheOp.apply m) = ops.foldl CacheOp.contents (cacheContents m)
  | [], _, h, _ => ⟨h, rfl⟩
  | op :: ops, m, h, hops => by
    obtain ⟨hinv, hc⟩ := CacheOp.apply_spec hcs h (hops op List.mem_cons_self)
    rw [List.foldl_cons, List.foldl_cons, ← hc]
    exact foldl_apply_spec hcs ops (op.apply m) hinv fun o ho => hops o (List.mem_cons_of_mem op ho)

theorem chunk_write_cache_correct (chunkSize : Nat) (hcs : chunkSize < 2 ^ 32)
    (ops : List CacheOp) (hops : ∀ op ∈ ops, op.valid chunkSize = true) :
    WriteCacheInv (runCacheOps ops) ∧
      ∀ index pos n off, 0 < n →
        ReadSpec (opsContents ops) index pos n off
          (readByWriteCache index pos n off (runCacheOps ops)).1
          (readByWriteCache index pos n off (runCacheOps ops)).2 := by
  obtain ⟨hinv, hc⟩ := foldl_apply_spec hcs ops [] writeCacheInv_nil hops
  refine ⟨hinv, fun index pos n off hn => ?_⟩
  have hcontents : opsContents ops = cacheContents (runCacheOps ops) := hc.symm
  rw [hcontents]
  exact readByWriteCache_spec hinv.readCacheInv index pos n off hn

/-- Two overlapping writes and a truncate in a chunk of 16 bytes. -/
def sampleCacheOps : List CacheOp :=
  [.writeChunk 2 [1, 2, 3], .writeChunk 4 [9, 9], .truncateCache 5]

theorem chunk_write_cache_correct_sample :
    16 < 2 ^ 32 ∧ (∀ op ∈ sampleCacheOps, op.valid 16 = true) ∧
      (WriteCacheInv (runCacheOps sampleCacheOps) ∧
        ∀ index pos n off, 0 < n →
          ReadSpec (opsContents sampleCacheOps) index pos n off
            (readByWriteCache index pos n off (runCacheOps sampleCacheOps)).1
            (readByWriteCache index pos n off (runCacheOps sampleCacheOps)).2) :=
  ⟨by decide, by decide, chunk_write_cache_correct 16 (by decide) sampleCacheOps (by decide)⟩

/-- `WriteNewDataCache` takes its position and length as `uint32_t` while `WriteChunk` and
`FindWriteableDataCache` carry `uint64_t`: in a chunk of `2 ^ 32 + 1` bytes, the byte written at
`2 ^ 32` is kept by a cache at position `0`, and a read at `2 ^ 32` copies nothing and asks the
backend for the byte. -/
theorem writeChunk_past_uint32_lands_at_zero :
    (CacheOp.writeChunk (2 ^ 32) [7]).valid (2 ^ 32 + 1) = true ∧
      opsContents [.writeChunk (2 ^ 32) [7]] (2 ^ 32) = some 7 ∧
      (runCacheOps [.writeChunk (2 ^ 32) [7]]).map (·.1) = [0] ∧
      cacheContents (runCacheOps [.writeChunk (2 ^ 32) [7]]) 0 = some 7 ∧
      readByWriteCache 0 (2 ^ 32) 1 0 (runCacheOps [.writeChunk (2 ^ 32) [7]]) =
        ([], [⟨0, 2 ^ 32, 1, 0⟩]) := by
  decide

end DingoFs.Client
