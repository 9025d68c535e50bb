import DingoFs.Common.S3Object
import DingoFs.Metaserver.Messages

/-!
# The client's S3 data path: flushing a data cache and reading chunk infos

`DataCache::PrepareFlushTasks` cuts a dirty range of a chunk into one object per block.
On the read side `HandleReadRequest` matches a read request of a chunk against one chunk info,
splitting off what the info does not cover and issuing an `S3ReadRequest` for what it does,
with the offset of the info's first object inside its block (`objectOffset`);
`ProcessKVRequest` then reads the request block by block from the objects.

Every loop of this module is shown to walk the blocks of its range, so that flushing writes
the objects of the layout and a read of an info's range returns the info's bytes.
-/

namespace DingoFs.Client

open DingoFs.Common DingoFs.Lib DingoFs.Metaserver

/-- `DINGOFS_ERROR`, the status of the client's filesystem calls. -/
inductive DingofsError
  | OK | INTERNAL | UNKNOWN | EXISTS | NOTEXIST | NO_SPACE | BAD_FD | INVALIDPARAM
  | NOPERMISSION | NOTEMPTY | NOFLUSH | NOTSUPPORT | NAMETOOLONG | MOUNT_POINT_EXIST
  | MOUNT_FAILED | OUT_OF_RANGE | NODATA | IO_ERROR | CACHETOOSMALL | STALE | NOSYS
  | NOPERMITTED
deriving DecidableEq, Repr

/-! ## Flushing -/

/-- The loop of `DataCache::PrepareFlushTasks`: `remainLen` bytes of `data` from `writeOffset`
go to blocks from `blockIndex`, starting `blockPos` into the first, one flush block each.
Each round takes at least one byte for a positive block size, so `remainLen` rounds do. -/
def flushBlocks (fsId inodeId chunkId blockSize : Nat) (data : List UInt8) :
    (fuel blockPos blockIndex remainLen writeOffset : Nat) → List (BlockKey × List UInt8)
  | 0, _, _, _, _ => []
  | fuel + 1, blockPos, blockIndex, remainLen, writeOffset =>
    if remainLen > 0 then
      let curentLen := if blockPos + remainLen > blockSize then blockSize - blockPos
        else remainLen
      (⟨fsId, inodeId, chunkId, blockIndex, 0⟩, (data.drop writeOffset).take curentLen) ::
        flushBlocks fsId inodeId chunkId blockSize data fuel
          ((blockPos + curentLen) % blockSize) (blockIndex + 1) (remainLen - curentLen)
          (writeOffset + curentLen)
    else []

/-- `DataCache::PrepareFlushTasks` for a data cache at chunk position `chunkPos` holding `data`,
with the chunk id it was allocated: the objects to put, at compaction 0. -/
def prepareFlushTasks (fsId inodeId chunkId blockSize chunkPos : Nat) (data : List UInt8) :
    List (BlockKey × List UInt8) :=
  flushBlocks fsId inodeId chunkId blockSize data data.length (chunkPos % blockSize)
    (chunkPos / blockSize) data.length 0

/-! ## Reading -/

/-- `ReadRequest`: `len` bytes at `chunkPos` of chunk `index`, into the buffer at
`bufOffset`. -/
structure ReadRequest where
  index : Nat
  chunkPos : Nat
  len : Nat
  bufOffset : Nat
deriving DecidableEq, Repr

/-- `S3ReadRequest`: `len` bytes at file offset `offset` of chunk `chunkId`, whose object in
the first block begins `objectOffset` bytes into the block, into the buffer at
`readOffset`. -/
structure S3ReadRequest where
  chunkId : Nat
  offset : Nat
  len : Nat
  objectOffset : Nat
  readOffset : Nat
  compaction : Nat
  fsId : Nat
  inodeId : Nat
deriving DecidableEq, Repr

/-- What `HandleReadRequest` leaves for one read request and one chunk info: the split
requests to add, the chunk positions of the requests to drop, the S3 reads, and the buffer
ranges `(offset, len)` it zero-fills. -/
structure HandledRead where
  addReadRequests : List ReadRequest
  deletingReq : List Nat
  requests : List S3ReadRequest
  zeroFills : List (Nat × Nat)

/-- `FileCacheManager::HandleReadRequest`. -/
def handleReadRequest (chunkSize blockSize fsId inodeId : Nat) (request : ReadRequest)
    (s3ChunkInfo : S3ChunkInfo) : HandledRead :=
  let fileOffset := request.index * chunkSize + request.chunkPos
  let length := request.len
  let bufOffset := request.bufOffset
  let infoOffset := s3ChunkInfo.offset
  let infoLen := s3ChunkInfo.len
  -- a zero info fills the buffer, a data info becomes an S3 read
  let read (offset len objectOffset readOffset : Nat) : List S3ReadRequest × List (Nat × Nat) :=
    if s3ChunkInfo.zero then ([], [(readOffset, len)])
    else ([⟨s3ChunkInfo.chunkid, offset, len, objectOffset, readOffset,
      s3ChunkInfo.compaction, fsId, inodeId⟩], [])
  if fileOffset + length ≤ infoOffset then ⟨[], [], [], []⟩
  else if infoOffset > fileOffset ∧ infoOffset < fileOffset + length then
    -- the info starts inside the read: the part before it is split off
    let split : ReadRequest := ⟨request.index, request.chunkPos, infoOffset - fileOffset, bufOffset⟩
    let readOffset := split.len
    if fileOffset + length ≤ infoOffset + infoLen then
      let r := read infoOffset (fileOffset + length - infoOffset)
        (infoOffset % chunkSize % blockSize) (bufOffset + readOffset)
      ⟨[split], [request.chunkPos], r.1, r.2⟩
    else
      let r := read infoOffset infoLen (infoOffset % chunkSize % blockSize)
        (bufOffset + readOffset)
      let readOffset' := readOffset + infoLen
      let split' : ReadRequest := ⟨request.index, request.chunkPos + readOffset',
        fileOffset + length - (infoOffset + infoLen), bufOffset + readOffset'⟩
      ⟨[split, split'], [request.chunkPos], r.1, r.2⟩
  else if infoOffset ≤ fileOffset ∧ infoOffset + infoLen > fileOffset then
    -- the info covers the read's start; its object in the read's first block begins at the
    -- info's offset only when the info starts in that block
    let objectOffset :=
      if fileOffset / blockSize = infoOffset / blockSize then infoOffset % chunkSize % blockSize
      else 0
    if fileOffset + length ≤ infoOffset + infoLen then
      let r := read fileOffset length objectOffset bufOffset
      ⟨[], [request.chunkPos], r.1, r.2⟩
    else
      let r := read fileOffset (infoOffset + infoLen - fileOffset) objectOffset bufOffset
      let readOffset := infoOffset + infoLen - fileOffset
      let split : ReadRequest := ⟨request.index,
        request.chunkPos + infoOffset + infoLen - fileOffset,
        fileOffset + length - (infoOffset + infoLen), bufOffset + readOffset⟩
      ⟨[split], [request.chunkPos], r.1, r.2⟩
  else ⟨[], [], [], []⟩

/-- The part of `r` before file offset `lo`: pending when it is not empty. -/
def ReadRequest.partBefore (chunkSize : Nat) (r : ReadRequest) (lo : Nat) : List ReadRequest :=
  let fileOffset := r.index * chunkSize + r.chunkPos
  if fileOffset < lo then [⟨r.index, r.chunkPos, lo - fileOffset, r.bufOffset⟩] else []

/-- The part of `r` from file offset `hi` on: pending when it is not empty. -/
def ReadRequest.partFrom (chunkSize : Nat) (r : ReadRequest) (hi : Nat) : List ReadRequest :=
  let fileOffset := r.index * chunkSize + r.chunkPos
  if hi < fileOffset + r.len then
    [⟨r.index, r.chunkPos + (hi - fileOffset), fileOffset + r.len - hi,
      r.bufOffset + (hi - fileOffset)⟩]
  else []

/-- A request cut at the file range `[lo, hi)` of an info that overlaps it: the request is
dropped, its parts before `lo` and from `hi` on stay pending, and `[lo, hi)` is read from the
info, whose object in the first block of the read begins `objectOffset` into the block, or
zero-filled for a zero info. Every branch of `HandleReadRequest` in which the info meets the
read is one such cut. -/
def cutRequest (chunkSize fsId inodeId : Nat) (r : ReadRequest) (info : S3ChunkInfo)
    (lo hi objectOffset : Nat) : HandledRead :=
  let readOffset := r.bufOffset + (lo - (r.index * chunkSize + r.chunkPos))
  if info.zero then
    ⟨r.partBefore chunkSize lo ++ r.partFrom chunkSize hi, [r.chunkPos], [], [(readOffset, hi - lo)]⟩
  else
    ⟨r.partBefore chunkSize lo ++ r.partFrom chunkSize hi, [r.chunkPos],
      [⟨info.chunkid, lo, hi - lo, objectOffset, readOffset, info.compaction, fsId, inodeId⟩], []⟩

/-- The branches of `HandleReadRequest`: the info misses the read, or the read is cut at their
overlap, with the info's offset within its block as `objectOffset` exactly when the overlap
starts in the info's first block. -/
theorem handleReadRequest_cases (chunkSize blockSize fsId inodeId : Nat) (r : ReadRequest)
    (info : S3ChunkInfo) :
    ((r.index * chunkSize + r.chunkPos + r.len ≤ info.offset ∨
        info.offset + info.len ≤ r.index * chunkSize + r.chunkPos) ∧
      handleReadRequest chunkSize blockSize fsId inodeId r info = ⟨[], [], [], []⟩) ∨
    (info.offset < r.index * chunkSize + r.chunkPos + r.len ∧
      r.index * chunkSize + r.chunkPos < info.offset + info.len ∧
      handleReadRequest chunkSize blockSize fsId inodeId r info =
        cutRequest chunkSize fsId inodeId r info (max (r.index * chunkSize + r.chunkPos) info.offset)
          (min (r.index * chunkSize + r.chunkPos + r.len) (info.offset + info.len))
          (if max (r.index * chunkSize + r.chunkPos) info.offset / blockSize =
              info.offset / blockSize then info.offset % chunkSize % blockSize else 0)) := by
  unfold handleReadRequest cutRequest ReadRequest.partBefore ReadRequest.partFrom
  dsimp only
  set F := r.index * chunkSize + r.chunkPos
  by_cases hbefore : F + r.len ≤ info.offset
  · -- the read ends before the info starts
    rw [if_pos hbefore]
    exact .inl ⟨.inl hbefore, rfl⟩
  rw [if_neg hbefore]
  by_cases hstarts : info.offset > F ∧ info.offset < F + r.len
  · -- the info starts inside the read: the part before it is split off
    rw [if_pos hstarts]
    refine .inr ⟨hstarts.2, by omega, ?_⟩
    rw [max_eq_right (le_of_lt hstarts.1), if_pos rfl, if_pos hstarts.1]
    by_cases hends : F + r.len ≤ info.offset + info.len
    · -- the read ends inside the info
      rw [if_pos hends, min_eq_left hends, if_neg (lt_irrefl _)]
      cases info.zero <;> rfl
    · -- the info ends inside the read: the part after it is split off too
      have hlt : info.offset + info.len < F + r.len := by omega
      rw [if_neg hends, min_eq_right (le_of_lt hlt), if_pos hlt]
      have hpos : r.chunkPos + (info.offset - F + info.len) =
          r.chunkPos + (info.offset + info.len - F) := by omega
      have hbuf : r.bufOffset + (info.offset - F + info.len) =
          r.bufOffset + (info.offset + info.len - F) := by omega
      cases info.zero <;> simp only [hpos, hbuf, List.singleton_append, Nat.add_sub_cancel_left] <;>
        rfl
  rw [if_neg hstarts]
  by_cases hcovers : info.offset ≤ F ∧ info.offset + info.len > F
  · -- the info covers the read's start
    rw [if_pos hcovers]
    refine .inr ⟨by omega, hcovers.2, ?_⟩
    rw [max_eq_left hcovers.1, if_neg (lt_irrefl _), Nat.sub_self, Nat.add_zero]
    by_cases hends : F + r.len ≤ info.offset + info.len
    · -- and its end
      rw [if_pos hends, min_eq_left hends, if_neg (lt_irrefl _), Nat.add_sub_cancel_left]
      cases info.zero <;> rfl
    · -- but not its end: the part after it is split off
      have hlt : info.offset + info.len < F + r.len := by omega
      rw [if_neg hends, min_eq_right (le_of_lt hlt), if_pos hlt]
      have hpos : r.chunkPos + info.offset + info.len - F =
          r.chunkPos + (info.offset + info.len - F) := by omega
      cases info.zero <;> simp only [hpos, List.nil_append] <;> rfl
  · -- the info lies wholly before the read
    rw [if_neg hcovers]
    exact .inl ⟨.inr (by omega), rfl⟩

/-- `FileCacheManager::GetBlockLoc`: chunk index, position in the chunk, block index and
position in the block of a file offset. -/
def getBlockLoc (chunkSize blockSize offset : Nat) : Nat × Nat × Nat × Nat :=
  (offset / chunkSize, offset % chunkSize, offset % chunkSize / blockSize,
    offset % chunkSize % blockSize)

/-- The loop of `ProcessKVRequest`: `length` bytes from block `blockIndex`, `blockPos` into the
block, whose object begins `objectOffset` into it; every later block's object begins at the
block's start. The local cache, the remote cache and S3 hold the same object, so a read is
a range read of the object. -/
def readKVBlocks (store : ObjectStore) (req : S3ReadRequest) (blockSize : Nat) :
    (fuel length blockIndex blockPos objectOffset : Nat) → Option (List UInt8)
  | 0, _, _, _, _ => some []
  | fuel + 1, length, blockIndex, blockPos, objectOffset =>
    if length > 0 then
      let currentReadLen := if length + blockPos > blockSize then blockSize - blockPos
        else length
      let key : BlockKey := ⟨req.fsId, req.inodeId, req.chunkId, blockIndex, req.compaction⟩
      match (store.lookup key).bind (readRange · (blockPos - objectOffset) currentReadLen) with
      | some piece =>
        (readKVBlocks store req blockSize fuel (length - currentReadLen) (blockIndex + 1)
          ((blockPos + currentReadLen) % blockSize) 0).map (piece ++ ·)
      | none => none
    else some []

/-- `FileCacheManager::ProcessKVRequest`: the bytes read for the buffer at `readOffset`, or
`none` when a read fails. -/
def processKVRequest (store : ObjectStore) (chunkSize blockSize : Nat) (req : S3ReadRequest) :
    Option (List UInt8) :=
  let loc := getBlockLoc chunkSize blockSize req.offset
  readKVBlocks store req blockSize req.len req.len loc.2.2.1 loc.2.2.2 req.objectOffset

/-! ## Flushing writes the layout -/

section Layout

variable {bs : Nat}

theorem flushBlocks_of_remainLen_zero (fsId inodeId chunkId : Nat) (data : List UInt8)
    (fuel blockPos blockIndex writeOffset : Nat) :
    flushBlocks fsId inodeId chunkId bs data fuel blockPos blockIndex 0 writeOffset = [] := by
  cases fuel <;> simp [flushBlocks]

/-- The flush loop from chunk position `pos` of data written from `c` puts the layout's
objects of the blocks from `pos` on. Each round is one block: it starts at `c` or at a block
start, and takes the bytes up to the block's end or the data's end. -/
theorem flushBlocks_eq_layout (hbs : 0 < bs) (fsId inodeId chunkId c : Nat) (d : List UInt8) :
    ∀ fuel pos, c ≤ pos → pos < c + d.length → (pos = c ∨ pos % bs = 0) →
      c + d.length - pos ≤ fuel →
      flushBlocks fsId inodeId chunkId bs d fuel (pos % bs) (pos / bs) (c + d.length - pos)
          (pos - c) =
        (blocksOf bs pos (c + d.length)).map fun k =>
          (⟨fsId, inodeId, chunkId, k, 0⟩, blockSlice bs c c (c + d.length) d k)
  | 0, pos, _, hpos, _, hfuel => by omega
  | fuel + 1, pos, hc, hpos, hstart, hfuel => by
    have hks : pos / bs * bs ≤ pos := Nat.div_mul_le_self pos bs
    have hke : pos < (pos / bs + 1) * bs := lt_succ_div_mul hbs pos
    have hmod : pos % bs + pos / bs * bs = pos := Nat.mod_add_div' pos bs
    have hnext : (pos / bs + 1) * bs = pos / bs * bs + bs := Nat.succ_mul _ bs
    -- the round starts at `c` or at its block's start
    have hmax : max c (pos / bs * bs) = pos := by
      rcases hstart with h | h <;> omega
    have hcur : (if pos % bs + (c + d.length - pos) > bs then bs - pos % bs
        else c + d.length - pos) = min (c + d.length) ((pos / bs + 1) * bs) - pos := by
      split_ifs <;> omega
    rw [flushBlocks, if_pos (by omega), blocksOf_cons hbs hpos]
    dsimp only
    rw [hcur, List.map_cons]
    congr 1
    · unfold blockSlice
      rw [hmax]
    · split_ifs with hend
      · -- the data ends in this block
        rw [show c + d.length - pos - (min (c + d.length) ((pos / bs + 1) * bs) - pos) = 0 by
          omega]
        exact flushBlocks_of_remainLen_zero _ _ _ _ _ _ _ _
      · -- the next round starts at the next block's start
        have hdiv : (pos / bs + 1) * bs / bs = pos / bs + 1 := Nat.mul_div_cancel _ hbs
        have ih := flushBlocks_eq_layout hbs fsId inodeId chunkId c d fuel ((pos / bs + 1) * bs)
          (by omega) (by omega) (.inr (Nat.mul_mod_left _ _)) (by omega)
        rw [hdiv, Nat.mul_mod_left] at ih
        rw [← ih]
        congr 1
        · rw [show pos % bs + (min (c + d.length) ((pos / bs + 1) * bs) - pos) = bs by omega,
            Nat.mod_self]
        · omega
        · omega

/-- `PrepareFlushTasks` puts the objects of the layout of the data cache's bytes, at
compaction 0. -/
theorem prepareFlushTasks_eq_layout (hbs : 0 < bs) (fsId inodeId chunkId chunkPos : Nat)
    (data : List UInt8) (hdata : data ≠ []) :
    prepareFlushTasks fsId inodeId chunkId bs chunkPos data =
      (layout bs chunkPos data).map fun o => (⟨fsId, inodeId, chunkId, o.1, 0⟩, o.2) := by
  have hlen : 0 < data.length := List.length_pos_of_ne_nil hdata
  have h := flushBlocks_eq_layout hbs fsId inodeId chunkId chunkPos data data.length chunkPos
    le_rfl (by omega) (.inl rfl) (by omega)
  rw [Nat.add_sub_cancel_left, Nat.sub_self] at h
  rw [prepareFlushTasks, h, layout, List.map_map]
  rfl

/-- A store that holds each object `PrepareFlushTasks` puts holds the layout of the data
cache's bytes. -/
theorem holdsLayout_of_prepareFlushTasks (hbs : 0 < bs) {fsId inodeId chunkId chunkPos : Nat}
    {data : List UInt8} (hdata : data ≠ []) {store : ObjectStore}
    (hput : ∀ o ∈ prepareFlushTasks fsId inodeId chunkId bs chunkPos data,
      store.lookup o.1 = some o.2) :
    HoldsLayout store (fun k => ⟨fsId, inodeId, chunkId, k, 0⟩) bs chunkPos data := by
  rw [prepareFlushTasks_eq_layout hbs fsId inodeId chunkId chunkPos data hdata] at hput
  exact holdsLayout_of_lookup fun o ho => hput _ (List.mem_map_of_mem ho)

/-! ## A read of an info's range returns its bytes -/

theorem readKVBlocks_of_length_zero (store : ObjectStore) (req : S3ReadRequest)
    (fuel blockIndex blockPos objectOffset : Nat) :
    readKVBlocks store req bs fuel 0 blockIndex blockPos objectOffset = some [] := by
  cases fuel <;> simp [readKVBlocks]

/-- The read loop from chunk position `pos` up to `hi`, over a store that holds the layout of
data `d` written from `c` (with `c ≤ pos` and `hi` inside the data): the object of the first
block begins `objectOffset` into it, at the later of `c` and the block's start. It returns the
bytes of `[pos, hi)`, each round the part in one block, read inside the object. -/
theorem readKVBlocks_eq (hbs : 0 < bs) {store : ObjectStore} {req : S3ReadRequest} {c hi : Nat}
    {d : List UInt8}
    (hstore : HoldsLayout store (fun k => ⟨req.fsId, req.inodeId, req.chunkId, k, req.compaction⟩)
      bs c d)
    (hhi : hi ≤ c + d.length) :
    ∀ fuel pos objectOffset, c ≤ pos → pos < hi → hi - pos ≤ fuel → objectOffset ≤ pos % bs →
      pos % bs - objectOffset = pos - max c (pos / bs * bs) →
      readKVBlocks store req bs fuel (hi - pos) (pos / bs) (pos % bs) objectOffset =
        some ((d.drop (pos - c)).take (hi - pos))
  | 0, pos, _, _, hpos, hfuel, _, _ => by omega
  | fuel + 1, pos, objectOffset, hc, hpos, hfuel, hoff, hstart => by
    have hks : pos / bs * bs ≤ pos := Nat.div_mul_le_self pos bs
    have hke : pos < (pos / bs + 1) * bs := lt_succ_div_mul hbs pos
    have hmod : pos % bs + pos / bs * bs = pos := Nat.mod_add_div' pos bs
    have hnext : (pos / bs + 1) * bs = pos / bs * bs + bs := Nat.succ_mul _ bs
    have hcur : (if hi - pos + pos % bs > bs then bs - pos % bs else hi - pos) =
        min hi ((pos / bs + 1) * bs) - pos := by
      split_ifs <;> omega
    -- the object of this block, and the part of it this round reads
    have hobj := hstore (pos / bs) (div_mem_blocksOf hc (by omega))
    have hpiece : readRange (blockSlice bs c c (c + d.length) d (pos / bs))
        (max pos (pos / bs * bs) - max c (pos / bs * bs))
        (min hi ((pos / bs + 1) * bs) - max pos (pos / bs * bs)) =
        some (blockSlice bs c pos hi d (pos / bs)) :=
      readRange_blockSlice d (pos / bs) hc hhi (by omega)
    rw [Nat.max_eq_left hks] at hpiece
    rw [readKVBlocks, if_pos (by omega)]
    dsimp only
    rw [hcur, hobj, Option.bind_some, hstart, hpiece]
    dsimp only
    by_cases hend : hi ≤ (pos / bs + 1) * bs
    · -- the range ends in this block
      rw [show hi - pos - (min hi ((pos / bs + 1) * bs) - pos) = 0 by omega,
        readKVBlocks_of_length_zero, Option.map_some, List.append_nil]
      unfold blockSlice
      rw [Nat.max_eq_left hks, Nat.min_eq_left hend]
    · -- the next round starts at the next block's start, at the start of its object
      have hdiv : (pos / bs + 1) * bs / bs = pos / bs + 1 := Nat.mul_div_cancel _ hbs
      have ih := readKVBlocks_eq hbs hstore hhi fuel ((pos / bs + 1) * bs) 0 (by omega)
        (by omega) (by omega) (Nat.zero_le _) (by
          rw [Nat.mul_mod_left, hdiv, Nat.max_eq_right (by omega)]
          omega)
      rw [hdiv, Nat.mul_mod_left] at ih
      rw [show hi - pos - (min hi ((pos / bs + 1) * bs) - pos) = hi - (pos / bs + 1) * bs by
          omega,
        show (pos % bs + (min hi ((pos / bs + 1) * bs) - pos)) % bs = 0 by
          rw [show pos % bs + (min hi ((pos / bs + 1) * bs) - pos) = bs by omega, Nat.mod_self],
        ih, Option.map_some]
      unfold blockSlice
      rw [Nat.max_eq_left hks, Nat.min_eq_right (by omega)]
      exact congrArg some (take_drop_append_take_drop d hc (Nat.le_of_lt hke) (by omega))

/-- Every S3 read `HandleReadRequest` issues lies inside the chunk info, names its objects, and
has as `objectOffset` the info's offset within its block when the read starts in the info's
first block, and 0 otherwise. -/
theorem mem_handleReadRequest_requests {cs fsId inodeId : Nat} {request : ReadRequest}
    {info : S3ChunkInfo} {s : S3ReadRequest}
    (hs : s ∈ (handleReadRequest cs bs fsId inodeId request info).requests) :
    s.chunkId = info.chunkid ∧ s.compaction = info.compaction ∧ s.fsId = fsId ∧
      s.inodeId = inodeId ∧ info.offset ≤ s.offset ∧ s.offset + s.len ≤ info.offset + info.len ∧
      s.objectOffset = if s.offset / bs = info.offset / bs then info.offset % cs % bs else 0 := by
  rcases handleReadRequest_cases cs bs fsId inodeId request info with ⟨-, hmiss⟩ | ⟨-, hhi, hcut⟩
  · -- an info that misses the read issues nothing
    rw [hmiss] at hs
    exact absurd hs List.not_mem_nil
  · -- the read of a cut is the overlap, from the info's chunk; a zero info issues none
    rw [hcut] at hs
    unfold cutRequest at hs
    cases hz : info.zero
    · simp only [hz, Bool.false_eq_true, if_false, List.mem_singleton] at hs
      subst hs
      exact ⟨rfl, rfl, rfl, rfl, le_max_right _ _, by dsimp only; omega, rfl⟩
    · simp only [hz, if_true, List.not_mem_nil] at hs

/-- `ProcessKVRequest` of a read inside a chunk info, over a store that holds the layout of the
info's bytes `d`, with the `objectOffset` of `HandleReadRequest`: it returns the info's bytes
at the read's range. The block size divides the chunk size, so the read and the info share
their block exactly when their positions in the chunk do. -/
theorem processKVRequest_of_layout (hbs : 0 < bs) {cs a : Nat} (hdvd : bs ∣ cs)
    {store : ObjectStore} {req : S3ReadRequest} {d : List UInt8}
    (hstore : HoldsLayout store (fun k => ⟨req.fsId, req.inodeId, req.chunkId, k, req.compaction⟩)
      bs (a % cs) d)
    (hinfo : a % cs + d.length ≤ cs) (ha : a ≤ req.offset)
    (hend : req.offset + req.len ≤ a + d.length)
    (hobj : req.objectOffset = if req.offset / bs = a / bs then a % cs % bs else 0) :
    processKVRequest store cs bs req = some ((d.drop (req.offset - a)).take req.len) := by
  unfold processKVRequest getBlockLoc
  dsimp only
  rcases Nat.eq_zero_or_pos req.len with hlen | hlen
  · rw [hlen, readKVBlocks_of_length_zero, List.take_zero]
  -- a nonempty read inside the info lies in the info's chunk
  have hchunk : req.offset / cs = a / cs := div_eq_of_mod_add_le hinfo ha (by omega)
  have ha' := Nat.mod_add_div' a cs
  have ho' := Nat.mod_add_div' req.offset cs
  rw [hchunk] at ho'
  have hcq : a % cs ≤ req.offset % cs := by omega
  have hsub : req.offset % cs - a % cs = req.offset - a := by omega
  -- the read shares the info's block in the file exactly where it does in the chunk
  have hblock : req.offset / bs = a / bs ↔ req.offset % cs / bs = a % cs / bs := by
    rw [div_eq_mod_div_add hbs hdvd req.offset, div_eq_mod_div_add hbs hdvd a, hchunk]
    omega
  rw [if_congr hblock rfl rfl] at hobj
  have hstart := mod_sub_start_eq hbs hcq
  rw [← hobj] at hstart
  have h := readKVBlocks_eq hbs hstore (by omega : req.offset % cs + req.len ≤ a % cs + d.length)
    req.len (req.offset % cs) req.objectOffset hcq (by omega) (by omega) hstart.1 hstart.2
  rwa [Nat.add_sub_cancel_left, hsub] at h

/-- The reads `HandleReadRequest` issues for a data info, over a store that holds the layout of
the info's bytes `d`: each lies inside the info, and `ProcessKVRequest` of it returns the info's
bytes at its range. -/
theorem processKVRequest_of_handleReadRequest (hbs : 0 < bs) {cs fsId inodeId : Nat}
    (hdvd : bs ∣ cs) {request : ReadRequest} {info : S3ChunkInfo} {store : ObjectStore}
    {d : List UInt8} (hlen : d.length = info.len) (hin : info.offset % cs + info.len ≤ cs)
    (hstore : HoldsLayout store (fun k => ⟨fsId, inodeId, info.chunkid, k, info.compaction⟩) bs
      (info.offset % cs) d)
    {s : S3ReadRequest} (hs : s ∈ (handleReadRequest cs bs fsId inodeId request info).requests) :
    info.offset ≤ s.offset ∧ s.offset + s.len ≤ info.offset + info.len ∧
      processKVRequest store cs bs s = some ((d.drop (s.offset - info.offset)).take s.len) := by
  obtain ⟨hid, hcomp, hfs, hino, hlo, hhi, hobj⟩ := mem_handleReadRequest_requests hs
  refine ⟨hlo, hhi, processKVRequest_of_layout hbs hdvd ?_ (by omega) hlo (by omega) hobj⟩
  rwa [hid, hcomp, hfs, hino]

end Layout

end DingoFs.Client
