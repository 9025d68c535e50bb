import DingoFs.Client.GenerateS3Request
import DingoFs.Metaserver.S3CompactInode

/-!
# Writers and readers of S3 objects agree on the layout

File data reaches S3 by two writers, the client's flush of a data cache
(`DataCache::PrepareFlushTasks`) and compaction (`CompactInodeJob::WriteFullChunk`), and is
read back by two readers, the client's `FileCacheManager::ProcessKVRequest` driven by
`HandleReadRequest`, and compaction's `GenS3ReadRequests`. All four cut a chunk info's bytes at
the block boundaries of its chunk. Where the block size divides the chunk size, both writers
put byte `p` of an info into the object of block `(p mod chunkSize) / blockSize` at `p` less
the later of the info's offset and the block's start (`infoByte`), and both readers, over a
store holding that layout, return the info's bytes, every read staying inside its object. The
client's reads of a data info also cover every byte of the read request that the info holds:
`HandleSpec.covered_read` finds, by the tiling of one call of `HandleReadRequest`, the read that
writes the byte.
-/

namespace DingoFs

open DingoFs.Common DingoFs.Lib DingoFs.Metaserver DingoFs.Client

section Agreement

variable (ctx : S3CompactCtx)

/-- The chunk info of a data cache flushed from `chunkPos` of chunk `chunkIndex`. -/
theorem infoByte_of_prepareFlushTasks (hbs : 0 < ctx.blockSize)
    {chunkId chunkIndex chunkPos : Nat} {data : List UInt8} (hdata : data ≠ [])
    (hin : chunkPos + data.length ≤ ctx.chunkSize) {store : ObjectStore}
    (hput : ∀ o ∈ prepareFlushTasks ctx.fsId ctx.inodeId chunkId ctx.blockSize chunkPos data,
      store.lookup o.1 = some o.2)
    {p : Nat} (hlo : chunkIndex * ctx.chunkSize + chunkPos ≤ p)
    (hhi : p < chunkIndex * ctx.chunkSize + chunkPos + data.length) :
    infoByte ctx store
        ⟨chunkId, 0, chunkIndex * ctx.chunkSize + chunkPos, data.length, data.length, false⟩ p =
      data[p - (chunkIndex * ctx.chunkSize + chunkPos)]? := by
  have hpos : chunkPos < ctx.chunkSize := by
    have := List.length_pos_of_ne_nil hdata
    omega
  -- the info's offset lies at `chunkPos` in its chunk
  have hmod : (chunkIndex * ctx.chunkSize + chunkPos) % ctx.chunkSize = chunkPos :=
    Nat.mul_add_mod_of_lt hpos
  have hstore := holdsLayout_of_prepareFlushTasks hbs hdata hput
  rw [← hmod] at hstore hin
  exact infoByte_of_holdsLayout hbs hstore hin hlo hhi

/-- The chunk info compaction writes, after every `PutObject` of `WriteFullChunk` succeeded. -/
theorem infoByte_of_writeFullChunk (hbs : 0 < ctx.blockSize) {putOk : BlockKey → Bool}
    {store : ObjectStore} {nci : S3NewChunkInfo} {fullChunk : List UInt8}
    (hd : fullChunk ≠ []) (hin : nci.newOff % ctx.chunkSize + fullChunk.length ≤ ctx.chunkSize)
    (hok : (writeFullChunk ctx putOk store nci fullChunk).2.2 = true) {p : Nat}
    (hlo : nci.newOff ≤ p) (hhi : p < nci.newOff + fullChunk.length) :
    infoByte ctx (writeFullChunk ctx putOk store nci fullChunk).1
        ⟨nci.newChunkId, nci.newCompaction, nci.newOff, fullChunk.length, fullChunk.length,
          false⟩ p =
      fullChunk[p - nci.newOff]? :=
  infoByte_of_holdsLayout hbs (writeFullChunk_holdsLayout hbs hd hok) hin hlo hhi

/-- Every byte of a read request that a data info covers comes back with the info's bytes `d`:
one of the reads `HandleReadRequest` makes writes it, and `ProcessKVRequest` of that read returns
the byte of `d` at the same file position. -/
theorem processKVRequest_covers_handleReadRequest (hbs : 0 < ctx.blockSize)
    (hdvd : ctx.blockSize ∣ ctx.chunkSize) {info : S3ChunkInfo} {d : List UInt8}
    {store : ObjectStore} {request : ReadRequest} (hlen : d.length = info.len)
    (hin : info.offset % ctx.chunkSize + info.len ≤ ctx.chunkSize)
    (hstore : HoldsLayout store
      (fun k => genObjName info.chunkid k info.compaction ctx.fsId ctx.inodeId)
      ctx.blockSize (info.offset % ctx.chunkSize) d)
    (hz : info.zero = false) {k : Nat} (hk : k < request.len)
    (hcov : info.Covers (request.fileOffset ctx.chunkSize + k)) :
    ∃ s ∈ (handleReadRequest ctx.chunkSize ctx.blockSize ctx.fsId ctx.inodeId request
        info).requests, s.Fills (request.bufOffset + k) ∧
      ∃ out, processKVRequest store ctx.chunkSize ctx.blockSize s = some out ∧
        out[request.bufOffset + k - s.readOffset]? =
          d[request.fileOffset ctx.chunkSize + k - info.offset]? := by
  have hspec : HandleSpec ctx.chunkSize request info
      (handleReadRequest ctx.chunkSize ctx.blockSize ctx.fsId ctx.inodeId request info) :=
    handleReadRequest_spec
  obtain ⟨s, hs, hfill, -, -, hlo, -, hpos⟩ := hspec.covered_read hz hk hcov
  obtain ⟨-, -, hout⟩ := processKVRequest_of_handleReadRequest hbs hdvd hlen hin hstore hs
  refine ⟨s, hs, hfill, _, hout, ?_⟩
  unfold S3ReadRequest.Fills at hfill
  -- the byte lies as far into the read as its file position lies past the read's offset
  rw [List.getElem?_take_of_lt (by omega), List.getElem?_drop]
  congr 1
  omega

theorem object_layout_agreement (hbs : 0 < ctx.blockSize)
    (hdvd : ctx.blockSize ∣ ctx.chunkSize) :
    -- `PrepareFlushTasks` of a data cache at `chunkPos` of chunk `chunkIndex`, put in a store
    (∀ (chunkId chunkIndex chunkPos : Nat) (data : List UInt8) (store : ObjectStore),
      data ≠ [] → chunkPos + data.length ≤ ctx.chunkSize →
      (∀ o ∈ prepareFlushTasks ctx.fsId ctx.inodeId chunkId ctx.blockSize chunkPos data,
        store.lookup o.1 = some o.2) →
      ∀ p, chunkIndex * ctx.chunkSize + chunkPos ≤ p →
        p < chunkIndex * ctx.chunkSize + chunkPos + data.length →
        infoByte ctx store
            ⟨chunkId, 0, chunkIndex * ctx.chunkSize + chunkPos, data.length, data.length, false⟩
            p =
          data[p - (chunkIndex * ctx.chunkSize + chunkPos)]?) ∧
    -- `WriteFullChunk` of a compaction's `fullChunk` from `newOff`
    (∀ (putOk : BlockKey → Bool) (store : ObjectStore) (nci : S3NewChunkInfo)
      (fullChunk : List UInt8), fullChunk ≠ [] →
      nci.newOff % ctx.chunkSize + fullChunk.length ≤ ctx.chunkSize →
      (writeFullChunk ctx putOk store nci fullChunk).2.2 = true →
      ∀ p, nci.newOff ≤ p → p < nci.newOff + fullChunk.length →
        infoByte ctx (writeFullChunk ctx putOk store nci fullChunk).1
            ⟨nci.newChunkId, nci.newCompaction, nci.newOff, fullChunk.length, fullChunk.length,
              false⟩ p =
          fullChunk[p - nci.newOff]?) ∧
    -- `ProcessKVRequest` of each read `HandleReadRequest` makes for a data info, and these reads
    -- cover every byte of the request that the info holds
    (∀ (info : S3ChunkInfo) (d : List UInt8) (store : ObjectStore) (request : ReadRequest),
      d.length = info.len → info.offset % ctx.chunkSize + info.len ≤ ctx.chunkSize →
      HoldsLayout store (fun k => genObjName info.chunkid k info.compaction ctx.fsId ctx.inodeId)
        ctx.blockSize (info.offset % ctx.chunkSize) d →
      (∀ s ∈ (handleReadRequest ctx.chunkSize ctx.blockSize ctx.fsId ctx.inodeId request
          info).requests,
        info.offset ≤ s.offset ∧ s.offset + s.len ≤ info.offset + info.len ∧
          processKVRequest store ctx.chunkSize ctx.blockSize s =
            some ((d.drop (s.offset - info.offset)).take s.len)) ∧
      (info.zero = false → ∀ k < request.len, info.Covers (request.fileOffset ctx.chunkSize + k) →
        ∃ s ∈ (handleReadRequest ctx.chunkSize ctx.blockSize ctx.fsId ctx.inodeId request
            info).requests, s.Fills (request.bufOffset + k) ∧
          ∃ out, processKVRequest store ctx.chunkSize ctx.blockSize s = some out ∧
            out[request.bufOffset + k - s.readOffset]? =
              d[request.fileOffset ctx.chunkSize + k - info.offset]?)) ∧
    -- `GenS3ReadRequests` for a data node of a compaction
    (∀ (nodes : List Node) (curr : Node) (store : ObjectStore) (d : List UInt8),
      curr ∈ nodes → curr.zero = false → curr.chunkoff ≤ curr.begin → curr.begin ≤ curr.end_ →
      curr.end_ < curr.chunkoff + curr.chunklen →
      curr.chunkoff % ctx.chunkSize + curr.chunklen ≤ ctx.chunkSize → d.length = curr.chunklen →
      HoldsLayout store (fun k => genObjName curr.chunkid k curr.compaction ctx.fsId ctx.inodeId)
        ctx.blockSize (curr.chunkoff % ctx.chunkSize) d →
      ∃ reqs, reqs <:+: (genS3ReadRequests ctx nodes).1 ∧
        (∀ r ∈ reqs, r.zero = false ∧ ∃ key obj, r.objName = some key ∧
          store.lookup key = some obj ∧ 0 < r.len ∧ r.off + r.len ≤ obj.length) ∧
        (reqs.mapM (readRequest store)).map List.flatten =
          some ((d.drop (curr.begin - curr.chunkoff)).take (curr.end_ + 1 - curr.begin))) :=
  ⟨fun _ _ _ _ _ hdata hin hput _ hlo hhi =>
      infoByte_of_prepareFlushTasks ctx hbs hdata hin hput hlo hhi,
    fun _ _ _ _ hd hin hok _ hlo hhi => infoByte_of_writeFullChunk ctx hbs hd hin hok hlo hhi,
    fun _ _ _ _ hlen hin hstore =>
      ⟨fun _ hs => processKVRequest_of_handleReadRequest hbs hdvd hlen hin hstore hs,
        fun hz _ hk hcov =>
          processKVRequest_covers_handleReadRequest ctx hbs hdvd hlen hin hstore hz hk hcov⟩,
    fun _ _ _ _ hmem hz hoff hbe hend hin hlen hstore =>
      genS3ReadRequests_reads_node hbs hmem hz hoff hbe hend hin hlen hstore⟩

end Agreement

/-- Blocks of 4 bytes in chunks of 8. -/
def layoutCtx : S3CompactCtx := ⟨1, 1, 4, 8⟩

/-- The objects of three bytes flushed from position 3 of chunk 1, put in an empty store. -/
def flushedStore : ObjectStore :=
  (prepareFlushTasks 1 1 5 4 3 [1, 2, 3]).foldl (fun store o => store.insert o.1 o.2) ∅

theorem object_layout_agreement_flush :
    0 < layoutCtx.blockSize ∧ layoutCtx.blockSize ∣ layoutCtx.chunkSize ∧
      infoByte layoutCtx flushedStore ⟨5, 0, 1 * 8 + 3, 3, 3, false⟩ 12 = some 2 :=
  ⟨by decide, by decide,
    (object_layout_agreement layoutCtx (by decide) (by decide)).1 5 1 3 [1, 2, 3] flushedStore
      (by decide) (by decide) (by decide) 12 (by decide) (by decide)⟩

end DingoFs
