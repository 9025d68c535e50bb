import DingoFs.Client.WriteCache
import Mathlib

/-!
# Reading a chunk through its caches

`ChunkCacheManager::ReadChunk` reads a range of a chunk from three layers in turn: the write
cache (`ReadByWriteCache`), then, for each range that missed it, the cache being flushed if
there is one (`ReadByFlushData`), then, for each range that missed that too, the read cache
(`ReadByReadCache`). What misses every layer is left as read requests, which
`FileCacheManager::Read` sends on to the block cache and S3.

`ReadByFlushData` is one round of `ReadByWriteCache`'s loop on the one flushing cache, so on a
nonempty range it is `ReadByWriteCache` over a map that holds only that cache
(`readByFlushData_eq`). `ReadByReadCache` is `ReadByWriteCache`'s body over `dataRCacheMap_`.

`ReadSpec.through` says what reading a first layer's requests through a second layer gives: the
spec of the two layers' contents together, the first one's bytes first. `readChunk_spec`
applies it twice: every byte of the range is copied from the first layer that holds it, and the
requests are the maximal runs that no layer holds.
-/

namespace DingoFs.Client

open DingoFs.Lib

/-! ## The read path of a chunk -/

/-- `ChunkCacheManager::ReadByFlushData`: one round of `ReadByWriteCache`'s loop on the cache
being flushed, then a request for what is left. A read that ends before the cache is one
request, whatever its length. -/
def readByFlushData (index chunkPos readLen dataBufOffset : Nat) (flushingDataCache : DataCache) :
    List (Nat × List UInt8) × List ReadRequest :=
  let dcChunkPos := flushingDataCache.chunkPos
  let dcLen := flushingDataCache.len
  if chunkPos + readLen ≤ dcChunkPos then ([], [⟨index, chunkPos, readLen, dataBufOffset⟩])
  else
    let r : WriteCacheRead :=
      if chunkPos + readLen > dcChunkPos ∧ chunkPos < dcChunkPos then
        let request : ReadRequest := ⟨index, chunkPos, dcChunkPos - chunkPos, dataBufOffset⟩
        if chunkPos + readLen ≤ dcChunkPos + dcLen then
          ⟨[(request.len + dataBufOffset,
              flushingDataCache.copyDataCacheToBuf 0 (chunkPos + readLen - dcChunkPos))],
            [request], chunkPos, 0, dataBufOffset⟩
        else
          ⟨[(request.len + dataBufOffset, flushingDataCache.copyDataCacheToBuf 0 dcLen)],
            [request], dcChunkPos + dcLen, chunkPos + readLen - (dcChunkPos + dcLen),
            dcChunkPos + dcLen - chunkPos + dataBufOffset⟩
      else if chunkPos ≥ dcChunkPos ∧ chunkPos < dcChunkPos + dcLen then
        if chunkPos + readLen ≤ dcChunkPos + dcLen then
          ⟨[(dataBufOffset,
              flushingDataCache.copyDataCacheToBuf (chunkPos - dcChunkPos) readLen)], [],
            chunkPos, 0, dataBufOffset⟩
        else
          ⟨[(dataBufOffset, flushingDataCache.copyDataCacheToBuf (chunkPos - dcChunkPos)
              (dcChunkPos + dcLen - chunkPos))], [],
            dcChunkPos + dcLen, chunkPos + readLen - dcChunkPos - dcLen,
            dcChunkPos + dcLen - chunkPos + dataBufOffset⟩
      else ⟨[], [], chunkPos, readLen, dataBufOffset⟩
    r.result index

/-- `ChunkCacheManager::ReadByReadCache`: the body of `ReadByWriteCache` over `dataRCacheMap_`.
It also moves each cache it reads from to the front of the read-cache LRU
(`FsCacheManager::Get`), which changes no byte it reads. -/
def readByReadCache (index chunkPos readLen dataBufOffset : Nat) (dataRCacheMap : WriteCacheMap) :
    List (Nat × List UInt8) × List ReadRequest :=
  readByWriteCache index chunkPos readLen dataBufOffset dataRCacheMap

/-- Each request read through one more layer, in order: the bytes it copies and the requests
it leaves, which `ReadChunk` collects for the layer after it. -/
def readThrough (layer : Nat → Nat → Nat → List (Nat × List UInt8) × List ReadRequest)
    (requests : List ReadRequest) : List (Nat × List UInt8) × List ReadRequest :=
  (requests.flatMap fun r => (layer r.chunkPos r.len r.bufOffset).1,
    requests.flatMap fun r => (layer r.chunkPos r.len r.bufOffset).2)

/-- `ChunkCacheManager::ReadChunk` of `readLen` bytes at `chunkPos` into the buffer at
`dataBufOffset`: the bytes the caches give, at their buffer offsets, and the requests for the
rest. -/
def readChunk (index chunkPos readLen dataBufOffset : Nat) (dataWCacheMap : WriteCacheMap)
    (flushingDataCache : Option DataCache) (dataRCacheMap : WriteCacheMap) :
    List (Nat × List UInt8) × List ReadRequest :=
  let (writeCopies, cacheMissWriteRequests) :=
    readByWriteCache index chunkPos readLen dataBufOffset dataWCacheMap
  let byReadCache := fun chunkPos len bufOffset =>
    readByReadCache index chunkPos len bufOffset dataRCacheMap
  match flushingDataCache with
  | some dc =>
    let (flushCopies, cacheMissFlushDataRequest) := readThrough
      (fun chunkPos len bufOffset => readByFlushData index chunkPos len bufOffset dc)
      cacheMissWriteRequests
    let (readCopies, requests) := readThrough byReadCache cacheMissFlushDataRequest
    (writeCopies ++ flushCopies ++ readCopies, requests)
  | none =>
    let (readCopies, requests) := readThrough byReadCache cacheMissWriteRequests
    (writeCopies ++ readCopies, requests)

/-- What the cache being flushed holds at `q`, if there is one. -/
def flushingContents : Option DataCache → Nat → Option UInt8
  | some dc => cacheContents [(dc.chunkPos, dc)]
  | none => fun _ => none

/-! ## The flushing cache is a map of one cache -/

theorem fromUpperBoundPrev_singleton (chunkPos : Nat) (e : Nat × DataCache) :
    fromUpperBoundPrev chunkPos [e] = [e] := by
  unfold fromUpperBoundPrev
  by_cases h : e.1 ≤ chunkPos <;> simp [h]

/-- On a nonempty range, `ReadByFlushData` is `ReadByWriteCache` over a map that holds only
the flushing cache. -/
theorem readByFlushData_eq {index chunkPos readLen dataBufOffset : Nat} (dc : DataCache)
    (hn : 0 < readLen) :
    readByFlushData index chunkPos readLen dataBufOffset dc =
      readByWriteCache index chunkPos readLen dataBufOffset [(dc.chunkPos, dc)] := by
  rw [readByWriteCache_of_ne_nil (List.cons_ne_nil _ _), fromUpperBoundPrev_singleton]
  unfold readByFlushData
  by_cases hbefore : chunkPos + readLen ≤ dc.chunkPos
  · -- the read ends before the cache: one request, as the loop's last one
    rw [if_pos hbefore, readByWriteCacheLoop, if_pos hbefore]
    simp [WriteCacheRead.result, hn]
  · rw [if_neg hbefore, readByWriteCacheLoop, if_neg hbefore]
    dsimp only
    split_ifs <;> simp [readByWriteCacheLoop, WriteCacheRead.prepend, WriteCacheRead.result]

theorem writeCacheInv_singleton {dc : DataCache} (hdc : 0 < dc.len) :
    WriteCacheInv [(dc.chunkPos, dc)] :=
  .of_pairwise (fun e he => by rw [List.mem_singleton.mp he])
    (fun e he => by rw [List.mem_singleton.mp he]; exact hdc) (List.pairwise_singleton _ _)

/-- `ReadByFlushData` of `n ≥ 1` bytes from a nonempty flushing cache meets `ReadSpec` for
what that cache holds. -/
theorem readByFlushData_spec {dc : DataCache} (hdc : 0 < dc.len) (index pos n off : Nat)
    (hn : 0 < n) :
    ReadSpec (flushingContents (some dc)) index pos n off (readByFlushData index pos n off dc).1
      (readByFlushData index pos n off dc).2 := by
  rw [readByFlushData_eq dc hn]
  exact readByWriteCache_spec (writeCacheInv_singleton hdc).readCacheInv index pos n off hn

/-! ## Reading the requests of one layer through the next -/

namespace ReadSpec

variable {c₁ c₂ : Nat → Option UInt8} {index pos n off : Nat}
  {copies : List (Nat × List UInt8)} {requests : List ReadRequest}

/-- Two requests of a read that both hold `q` are one: the requests are apart. -/
theorem eq_of_mem (h : ReadSpec c₁ index pos n off copies requests) {r r' : ReadRequest}
    (hr : r ∈ requests) (hr' : r' ∈ requests) {q : Nat}
    (hq : r.chunkPos ≤ q ∧ q < r.chunkPos + r.len)
    (hq' : r'.chunkPos ≤ q ∧ q < r'.chunkPos + r'.len) : r = r' := by
  by_contra hne
  let apart : ReadRequest → ReadRequest → Prop := fun r r' =>
    r.chunkPos + r.len < r'.chunkPos ∨ r'.chunkPos + r'.len < r.chunkPos
  have : Std.Symm apart := ⟨fun _ _ h => h.symm⟩
  have hapart : requests.Pairwise apart := h.sorted.imp Or.inl
  have := hapart.forall hr hr' hne
  omega

/-- The requests of a read, each read through a second layer that meets its own spec: the
bytes of the first layer and then those of the second are copied, and what neither holds is
left as requests. The contents are the first layer's, then the second's where it has none. -/
theorem through (h₁ : ReadSpec c₁ index pos n off copies requests)
    (layer : Nat → Nat → Nat → List (Nat × List UInt8) × List ReadRequest)
    (h₂ : ∀ r ∈ requests, ReadSpec c₂ index r.chunkPos r.len r.bufOffset
      (layer r.chunkPos r.len r.bufOffset).1 (layer r.chunkPos r.len r.bufOffset).2) :
    ReadSpec (fun q => (c₁ q).or (c₂ q)) index pos n off
      (copies ++ (readThrough layer requests).1) (readThrough layer requests).2 where
  copied q hq₁ hq₂ := by
    rw [extentAt_append, h₁.copied q hq₁ hq₂]
    cases hc : c₁ q with
    | some b => rfl
    | none =>
      -- the byte is in one request, and only that request's read copies to its buffer offset
      obtain ⟨r, hr, hlo, hhi⟩ := h₁.requested q hq₁ hq₂ hc
      obtain ⟨-, -, hpos, -, hoff⟩ := h₁.request_in r hr
      have hothers : ∀ r' ∈ requests, r' ≠ r →
          extentAt (layer r'.chunkPos r'.len r'.bufOffset).1 (off + (q - pos)) = none := by
        intro r' hr' hne
        by_contra hsome
        obtain ⟨hi₁, hi₂⟩ := (h₂ r' hr').copied_within _ hsome
        obtain ⟨-, -, hpos', -, hoff'⟩ := h₁.request_in r' hr'
        exact hne (h₁.eq_of_mem hr' hr ⟨by omega, by omega⟩ ⟨hlo, hhi⟩)
      rw [Option.none_or, readThrough, extentAt_flatMap_of_unique hr hothers,
        show off + (q - pos) = r.bufOffset + (q - r.chunkPos) by omega]
      exact (h₂ r hr).copied q hlo hhi
  copied_within i hi := by
    rw [extentAt_append] at hi
    cases hc : extentAt copies i with
    | some b => exact h₁.copied_within i (by rw [hc]; exact Option.some_ne_none b)
    | none =>
      rw [hc, Option.none_or] at hi
      obtain ⟨r, hr, hri⟩ := exists_of_extentAt_flatMap_ne_none hi
      obtain ⟨hi₁, hi₂⟩ := (h₂ r hr).copied_within i hri
      obtain ⟨-, -, hpos, hend, hoff⟩ := h₁.request_in r hr
      omega
  requested q hq₁ hq₂ hnone := by
    obtain ⟨hc₁, hc₂⟩ := Option.or_eq_none_iff.mp hnone
    obtain ⟨r, hr, hlo, hhi⟩ := h₁.requested q hq₁ hq₂ hc₁
    obtain ⟨r₂, hr₂, hlo₂, hhi₂⟩ := (h₂ r hr).requested q hlo hhi hc₂
    exact ⟨r₂, List.mem_flatMap.mpr ⟨r, hr, hr₂⟩, hlo₂, hhi₂⟩
  request_in r₂ hr₂ := by
    obtain ⟨r, hr, hr₂⟩ := List.mem_flatMap.mp hr₂
    obtain ⟨-, -, hpos, hend, hoff⟩ := h₁.request_in r hr
    obtain ⟨hidx₂, hlen₂, hpos₂, hend₂, hoff₂⟩ := (h₂ r hr).request_in r₂ hr₂
    exact ⟨hidx₂, hlen₂, by omega, by omega, by omega⟩
  request_missing r₂ hr₂ q hlo hhi := by
    obtain ⟨r, hr, hr₂⟩ := List.mem_flatMap.mp hr₂
    obtain ⟨-, -, hpos₂, hend₂, -⟩ := (h₂ r hr).request_in r₂ hr₂
    show (c₁ q).or (c₂ q) = none
    rw [h₁.request_missing r hr q (by omega) (by omega),
      (h₂ r hr).request_missing r₂ hr₂ q hlo hhi, Option.none_or]
  request_maximal r₂ hr₂ := by
    obtain ⟨r, hr, hr₂⟩ := List.mem_flatMap.mp hr₂
    obtain ⟨hlo₁, hhi₁⟩ := h₁.request_maximal r hr
    obtain ⟨hlo₂, hhi₂⟩ := (h₂ r hr).request_maximal r₂ hr₂
    -- a bound of `r₂` is one of `r`, or is next to a byte of the second layer; a bound of `r`
    -- is one of the range, or is next to a byte of the first layer
    have hleft : ∀ x, c₁ x ≠ none → (c₁ x).or (c₂ x) ≠ none :=
      fun x hx hor => hx (Option.or_eq_none_iff.mp hor).1
    have hright : ∀ x, c₂ x ≠ none → (c₁ x).or (c₂ x) ≠ none :=
      fun x hx hor => hx (Option.or_eq_none_iff.mp hor).2
    constructor
    · rcases hlo₂ with hs | hs
      · rw [hs]
        exact hlo₁.imp_right (hleft _)
      · exact .inr (hright _ hs)
    · rcases hhi₂ with he | he
      · rw [he]
        exact hhi₁.imp_right (hleft _)
      · exact .inr (hright _ he)
  sorted := by
    refine List.pairwise_flatMap.mpr ⟨fun r hr => (h₂ r hr).sorted,
      h₁.sorted.imp_of_mem fun {r r'} hr hr' hlt x hx y hy => ?_⟩
    obtain ⟨-, -, -, hend, -⟩ := (h₂ r hr).request_in x hx
    obtain ⟨-, -, hpos, -, -⟩ := (h₂ r' hr').request_in y hy
    omega

end ReadSpec

/-! ## Reading a chunk -/

/-- What the layers of a chunk hold together: the write cache first, then the cache being
flushed, then the read cache. -/
def chunkContents (dataWCacheMap : WriteCacheMap) (flushingDataCache : Option DataCache)
    (dataRCacheMap : WriteCacheMap) (q : Nat) : Option UInt8 :=
  ((cacheContents dataWCacheMap q).or (flushingContents flushingDataCache q)).or
    (cacheContents dataRCacheMap q)

/-- `ChunkCacheManager::ReadChunk` of `n ≥ 1` bytes meets `ReadSpec` for what the layers hold
together: each byte of the range is copied from the first layer that holds it, and the
requests are the maximal runs of bytes that no layer holds, in order. -/
theorem readChunk_spec {dataWCacheMap dataRCacheMap : WriteCacheMap}
    {flushingDataCache : Option DataCache} (hw : WriteCacheInv dataWCacheMap)
    (hf : ∀ dc, flushingDataCache = some dc → 0 < dc.len) (hr : ReadCacheInv dataRCacheMap)
    (index pos n off : Nat) (hn : 0 < n) :
    ReadSpec (chunkContents dataWCacheMap flushingDataCache dataRCacheMap) index pos n off
      (readChunk index pos n off dataWCacheMap flushingDataCache dataRCacheMap).1
      (readChunk index pos n off dataWCacheMap flushingDataCache dataRCacheMap).2 := by
  have hwrite := readByWriteCache_spec hw.readCacheInv index pos n off hn
  -- every request a layer leaves has a byte, so the read cache meets its spec on it
  have hread : ∀ {c copies requests}, ReadSpec c index pos n off copies requests →
      ∀ r ∈ requests, ReadSpec (cacheContents dataRCacheMap) index r.chunkPos r.len r.bufOffset
        (readByReadCache index r.chunkPos r.len r.bufOffset dataRCacheMap).1
        (readByReadCache index r.chunkPos r.len r.bufOffset dataRCacheMap).2 :=
    fun h r hr' => readByWriteCache_spec hr index r.chunkPos r.len r.bufOffset
      (h.request_in r hr').2.1
  cases flushingDataCache with
  | none =>
    -- no flushing cache: the write cache's misses go to the read cache
    refine (hwrite.through (fun a b c => readByReadCache index a b c dataRCacheMap)
      (hread hwrite)).congr fun q _ _ => ?_
    rw [chunkContents, flushingContents, Option.or_none]
  | some dc =>
    have hflush := hwrite.through (fun a b c => readByFlushData index a b c dc)
      fun r hr' => readByFlushData_spec (hf dc rfl) index r.chunkPos r.len r.bufOffset
        (hwrite.request_in r hr').2.1
    exact hflush.through (fun a b c => readByReadCache index a b c dataRCacheMap) (hread hflush)

-- The write cache gives bytes 0 and 1, the flushing cache byte 4 and the read cache byte 6.
example : readChunk 0 0 10 0 [(0, ⟨0, [1, 2]⟩)] (some ⟨4, [5]⟩) [(6, ⟨6, [7]⟩)] =
    ([(0, [1, 2]), (4, [5]), (6, [7])], [⟨0, 2, 2, 2⟩, ⟨0, 5, 1, 5⟩, ⟨0, 7, 3, 7⟩]) := by
  decide

end DingoFs.Client
