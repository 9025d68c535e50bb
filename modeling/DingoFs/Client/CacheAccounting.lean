import DingoFs.Client.DataCachePages
import DingoFs.Client.S3CacheManager

/-!
# The write-cache counters of `FsCacheManager`

`FsCacheManager` counts the write caches of all files in `wDataCacheNum_` and their pages'
bytes in `wDataCacheByte_`; the write throttle reads them. A chunk's `ChunkCacheManager`
adjusts them when it makes a cache (`WriteNewDataCache`), drops caches (`TruncateWriteCache`,
`ReleaseCache`) and flushes one (`Flush`, through `ReleaseWriteDataCache`). Each decrement
asserts that the counter holds at least what it takes (`DataCacheNumFetchSub`,
`DataCacheByteDec`); a failed assertion is `none` here.

`ChunkCacheManager::Flush` takes a flushable cache out of the map and retries
`DataCache::Flush` on it in a `do … while (ret != OK)` loop: `NOTEXIST` releases the cache and
stops, `INTERNAL` retries, and any other outcome releases the cache and, unless it was `OK`,
retries. An outcome such as `UNKNOWN` (a metaserver error `GetInode` passes on) therefore
releases the cache, and the retry that then succeeds releases it a second time:
`flush_releases_cache_twice` shows the count ending one below the caches held, and the
assertion failing when the flushed cache was the only one.
-/

namespace DingoFs.Client

/-- An outcome of `DataCache::Flush` that the retry loop of `ChunkCacheManager::Flush` neither
stops at nor retries without releasing the cache. -/
def DingofsError.ReleasesAndRetries (e : DingofsError) : Prop :=
  e ≠ .OK ∧ e ≠ .NOTEXIST ∧ e ≠ .INTERNAL

instance : DecidablePred DingofsError.ReleasesAndRetries :=
  fun e => inferInstanceAs (Decidable (e ≠ .OK ∧ e ≠ .NOTEXIST ∧ e ≠ .INTERNAL))

namespace Pages

open DingoFs.Lib

/-- The write-cache counters of `FsCacheManager`: `wDataCacheNum_` and `wDataCacheByte_`. -/
structure FsCacheManager where
  wDataCacheNum : Nat
  wDataCacheByte : Nat
deriving DecidableEq, Repr

namespace FsCacheManager

/-- `DataCacheNumInc`. -/
def dataCacheNumInc (fs : FsCacheManager) : FsCacheManager :=
  { fs with wDataCacheNum := fs.wDataCacheNum + 1 }

/-- `DataCacheNumFetchSub(v)`; `none` when `assert(wDataCacheNum_ >= v)` fails. -/
def dataCacheNumFetchSub (fs : FsCacheManager) (v : Nat) : Option FsCacheManager :=
  if fs.wDataCacheNum ≥ v then some { fs with wDataCacheNum := fs.wDataCacheNum - v } else none

/-- `DataCacheByteInc(v)`. -/
def dataCacheByteInc (fs : FsCacheManager) (v : Nat) : FsCacheManager :=
  { fs with wDataCacheByte := fs.wDataCacheByte + v }

/-- `DataCacheByteDec(v)`; `none` when `assert(wDataCacheByte_ >= v)` fails. -/
def dataCacheByteDec (fs : FsCacheManager) (v : Nat) : Option FsCacheManager :=
  if fs.wDataCacheByte ≥ v then some { fs with wDataCacheByte := fs.wDataCacheByte - v } else none

end FsCacheManager

/-- `dataWCacheMap_` of a `ChunkCacheManager`: its write caches by position. -/
abbrev DataWCacheMap := List (Nat × DataCache)

/-- `ChunkCacheManager::WriteNewDataCache` (position and length are `uint32_t`): the new cache
goes into the map unless its position is taken (`emplace` fails, and nothing is counted), and
is counted with its `actualLen_`. -/
def writeNewDataCache (blockSize pageSize chunkPos len : Nat) (m : DataWCacheMap)
    (fs : FsCacheManager) : Option (DataWCacheMap × FsCacheManager) :=
  (DataCache.create blockSize pageSize (chunkPos % 2 ^ 32) (len % 2 ^ 32)).map fun dc =>
    if m.any (·.1 == chunkPos % 2 ^ 32) then (m, fs)
    else ((chunkPos % 2 ^ 32, dc) :: m, (fs.dataCacheNumInc).dataCacheByteInc dc.actualLen)

/-- `ChunkCacheManager::ReleaseWriteDataCache`. -/
def releaseWriteDataCache (fs : FsCacheManager) (dc : DataCache) : Option FsCacheManager :=
  (fs.dataCacheNumFetchSub 1).bind (·.dataCacheByteDec dc.actualLen)

/-- The write-cache half of `ChunkCacheManager::ReleaseCache`: every cache uncounted, the map
cleared. -/
def releaseCache : DataWCacheMap → FsCacheManager → Option FsCacheManager
  | [], fs => some fs
  | (_, dc) :: rest, fs => (releaseWriteDataCache fs dc).bind (releaseCache rest)

/-- The retry loop of `ChunkCacheManager::Flush` for the cache `dc` it took out of the map,
with the outcomes of the successive `DataCache::Flush` calls; it stops when they run out. -/
def flushRetry (dc : DataCache) : List DingofsError → FsCacheManager → Option FsCacheManager
  | [], fs => some fs
  | ret :: rets, fs =>
    if ret = .NOTEXIST then releaseWriteDataCache fs dc
    -- `sleep(3); continue` goes to the loop condition, which holds
    else if ret = .INTERNAL then flushRetry dc rets fs
    else
      match releaseWriteDataCache fs dc with
      | none => none
      | some fs => if ret = .OK then some fs else flushRetry dc rets fs

/-- `ChunkCacheManager::Flush`: while a cache can flush, the first one is taken out of the map
and flushed, with the outcomes of one list per cache; it stops when they run out. -/
def flush (canFlush : DataCache → Bool) :
    List (List DingofsError) → DataWCacheMap → FsCacheManager →
      Option (DataWCacheMap × FsCacheManager)
  | [], m, fs => some (m, fs)
  | rets :: more, m, fs =>
    match m.find? (fun e => canFlush e.2) with
    | none => some (m, fs)
    | some (_, dc) =>
      (flushRetry dc rets fs).bind fun fs =>
        flush canFlush more (m.eraseP fun e => canFlush e.2) fs

/-! ## A retry after an error releases the cache again -/

section Release

variable {fs fs' : FsCacheManager} {dc : DataCache}

theorem releaseWriteDataCache_num (h : releaseWriteDataCache fs dc = some fs') :
    1 ≤ fs.wDataCacheNum ∧ fs'.wDataCacheNum = fs.wDataCacheNum - 1 := by
  unfold releaseWriteDataCache FsCacheManager.dataCacheNumFetchSub at h
  by_cases h1 : fs.wDataCacheNum ≥ 1
  · simp only [h1, if_true, Option.bind_some, FsCacheManager.dataCacheByteDec] at h
    split_ifs at h
    cases h
    exact ⟨h1, rfl⟩
  · simp [h1] at h

/-- After an outcome that releases and retries, the successful retry releases the cache a
second time. -/
theorem flushRetry_releases_twice {e : DingofsError} (he : e.ReleasesAndRetries) :
    flushRetry dc [e, .OK] fs =
      (releaseWriteDataCache fs dc).bind fun fs => releaseWriteDataCache fs dc := by
  obtain ⟨hok, hne, hint⟩ := he
  simp only [flushRetry, hne, hint, hok, if_false]
  cases releaseWriteDataCache fs dc with
  | none => rfl
  | some fs₁ =>
    simp only [Option.bind_some, if_true]
    cases releaseWriteDataCache fs₁ dc <;> rfl

end Release

/-- `Flush` of a chunk whose counter holds its caches and `others` elsewhere, where a cache
can flush, and whose `DataCache::Flush` first fails with an outcome that releases and retries
and then succeeds: an assertion fails, or the counter ends one below the caches held. -/
theorem flush_releases_cache_twice (canFlush : DataCache → Bool) (m : DataWCacheMap)
    (fs : FsCacheManager) (others : Nat) (hnum : fs.wDataCacheNum = m.length + others)
    (hcan : ∃ e ∈ m, canFlush e.2) (err : DingofsError) (herr : err.ReleasesAndRetries) :
    flush canFlush [[err, .OK]] m fs = none ∨
      ∃ m' fs', flush canFlush [[err, .OK]] m fs = some (m', fs') ∧
        fs'.wDataCacheNum + 1 = m'.length + others := by
  -- the cache flushed is the first that can flush, and `eraseP` takes exactly it out
  obtain ⟨⟨k, dc⟩, hfind⟩ : ∃ e, m.find? (fun e => canFlush e.2) = some e := by
    obtain ⟨e, hem, hce⟩ := hcan
    cases h : m.find? (fun e => canFlush e.2) with
    | none => exact absurd hce (by simpa using List.find?_eq_none.mp h e hem)
    | some e' => exact ⟨e', rfl⟩
  have hmem : (k, dc) ∈ m := List.mem_of_find?_eq_some hfind
  have hp : canFlush dc = true := by simpa using List.find?_some hfind
  have hlen : (m.eraseP fun e => canFlush e.2).length = m.length - 1 :=
    List.length_eraseP_of_mem hmem (by simpa using hp)
  have hpos : 0 < m.length := List.length_pos_of_mem hmem
  simp only [flush, hfind, flushRetry_releases_twice herr]
  -- two releases, each taking one from the counter
  cases h₁ : releaseWriteDataCache fs dc with
  | none => left; rfl
  | some fs₁ =>
    cases h₂ : releaseWriteDataCache fs₁ dc with
    | none => left; simp [h₂]
    | some fs₂ =>
      right
      refine ⟨m.eraseP fun e => canFlush e.2, fs₂, by simp [h₂], ?_⟩
      have e₁ := (releaseWriteDataCache_num h₁).2
      obtain ⟨hge, e₂⟩ := releaseWriteDataCache_num h₂
      omega

/-- The chunk after a write of one byte at the start of a file, with blocks of 16 bytes and
pages of 4: one cache of one page. -/
def oneByteChunk : DataWCacheMap := [(0, ⟨0, 1, 0, 4, PageMap.empty.emplace 0 0⟩)]

example : (writeNewDataCache 16 4 0 1 [] ⟨0, 0⟩).map
    (fun r => (r.1.map fun e => (e.1, e.2.chunkPos, e.2.len, e.2.actualLen), r.2)) =
    some ([(0, 0, 1, 4)], ⟨1, 4⟩) := by decide

/-- That cache flushed when `DataCache::Flush` first reports `UNKNOWN` and then succeeds. -/
theorem flush_after_unknown_one_byte :
    (⟨1, 4⟩ : FsCacheManager).wDataCacheNum = oneByteChunk.length + 0 ∧
      DingofsError.UNKNOWN.ReleasesAndRetries ∧
      (flush (fun _ => true) [[.UNKNOWN, .OK]] oneByteChunk ⟨1, 4⟩ = none ∨
        ∃ m' fs', flush (fun _ => true) [[.UNKNOWN, .OK]] oneByteChunk ⟨1, 4⟩ = some (m', fs') ∧
          fs'.wDataCacheNum + 1 = m'.length + 0) :=
  ⟨rfl, by decide, flush_releases_cache_twice (fun _ => true) oneByteChunk ⟨1, 4⟩ 0 rfl
    ⟨_, List.mem_singleton_self _, rfl⟩ .UNKNOWN (by decide)⟩

/-- The whole run: the write, then the flush, whose second release fails the assertion of
`DataCacheNumFetchSub`. -/
example : ((writeNewDataCache 16 4 0 1 [] ⟨0, 0⟩).bind fun r =>
    flush (fun _ => true) [[.UNKNOWN, .OK]] r.1 r.2).isNone = true := by decide

end Pages

end DingoFs.Client
